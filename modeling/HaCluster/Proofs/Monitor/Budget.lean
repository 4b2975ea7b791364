import HaCluster.Proofs.Monitor.Attempts

/-!
# How often a start is tried

The start of a service that fails is tried again a limited number of times. What
limits it is the record: as long as it says `start failed`, another attempt takes
a retry, and the retries are counted.

The record does not always say so until then. Where a round finds the local
status unknown, or the node being emptied, it makes the record `idle` and forgets
the failure (`Turn.forgets`), and the next attempt takes no retry. Of a service
that is never up there are no more attempts than one, the retries that are
allowed, and the rounds that forget (`attempts_le`).
-/

namespace HaCluster

/-- A request that neither speaks for a node as its peer nor changes the record of
a service. -/
def Request.Detached (service node : String) (r : Request) : Prop :=
  r.Foreign node ∧ ∀ u, r ≠ .setInstance service u

namespace Monitor

open Value Mutation

variable {W : Type} [World W] {node p : String} {n : Nat} {s s' : Monitor W} {t : Turn W}
  {ts : List (Turn W)} {at_ : Float} {v : View} {o : NodeOutcome} {c : Service.Config}

/-! ## The parts of a round -/

/-- Actions that ended are written down. -/
theorem Held.settled (h : Held n node p s) (finite : at_.isFinite = true) (host : Daemon.Host)
    (now : Moment) :
    ∃ done s', settle host now at_ s = .ok done s'
      ∧ ((∀ code, (Action.whole p .start, code) ∈ done → code ≠ 0) →
        Held n node p s' ∧ Ledger node p s s' 0 0) := by
  obtain ⟨t, loaded, sound, running, -⟩ := reload_ok h.sound host
  obtain ⟨heldT, before⟩ := h.beside
    (.of_retains (retains_reload host) h.sound.daemon.name loaded (by rw [running])) sound
  obtain ⟨heldU, polled⟩ := heldT.congr (t := { t with world := (pollAll t.running t.world).2 })
    rfl rfl (sound.congr sound.daemon rfl)
  obtain ⟨done, s', reaped, spec⟩ :=
    heldU.completed finite now.wall (pollAll t.running t.world).1
  refine ⟨done, s', (bind_ok loaded).trans reaped, fun failed => ?_⟩
  obtain ⟨held, ledger⟩ := spec failed
  exact ⟨held, (before.trans polled).trans ledger⟩

/-- Statuses are taken in and the node is decided about beside the record. -/
theorem Held.surveyed (h : Held n node p s) (now : Moment) (at_ : Float)
    (done : List (Action × Int)) :
    ∃ o s', survey now at_ done s = .ok o s' ∧ Held n node p s' ∧ Ledger node p s s' 0 0 := by
  obtain ⟨o, s', surveyed, sound, calm, -⟩ := survey_ok Node.Blob.rule_anything h.sound now
    at_ done fun r _ _ new => Node.Blob.accepts_anything r.service new
  have frame := frame_spared node p
  have beside := Beside.of_retains (retains_survey frame now (.of_frame frame trivial at_) done)
    h.sound.daemon.name surveyed (by rw [calm.running])
  exact ⟨o, s', surveyed, h.beside beside sound⟩

/-- Another service is orchestrated beside the record. -/
theorem Held.passes (h : Held n node p s) (at_ now : Float) (hv : v.localNode = node)
    (o : NodeOutcome) {q : String} (ne : q ≠ p) :
    ∃ r s', orchestrate at_ now v o q s = .ok r s' ∧ Held n node p s' ∧ Ledger node p s s' 0 0
      ∧ Beside node p s s' ∧ s'.daemon.settings = s.daemon.settings := by
  obtain ⟨r, s', run, sound, settings, handled⟩ :=
    orchestrate_ok Node.Blob.rule_anything hv h.sound at_ now o q
  have beside := Beside.of_retains (retains_orchestrate (frame_spared node p) at_ now hv o ne)
    h.sound.daemon.name run (handled.frame (fun a ha => (wanted_spec ha).1) (Ne.symm ne))
  obtain ⟨held, ledger⟩ := h.beside beside sound
  exact ⟨r, s', run, held, ledger, beside, settings⟩

/-- The other services are orchestrated beside the record. -/
theorem Held.passesAll (h : Held n node p s) (at_ now : Float) (hv : v.localNode = node)
    (o : NodeOutcome) {services : List String} (absent : p ∉ services) :
    ∃ r s', orchestrateAll at_ now v o services s = .ok r s' ∧ Held n node p s'
      ∧ Ledger node p s s' 0 0 := by
  induction services generalizing s with
  | nil => exact ⟨([], []), s, rfl, h.beside (.refl h.sound.daemon.name) h.sound⟩
  | cons q services ih =>
    obtain ⟨ne, absent⟩ := not_or.1 (fun there => absent (List.mem_cons.2 there))
    obtain ⟨r, t, first, heldT, here, -⟩ := h.passes at_ now hv o (Ne.symm ne)
    obtain ⟨⟨launched, failed⟩, s', rest, held, there⟩ := ih heldT absent
    exact ⟨_, s', orchestrateAll_cons first rest, held, here.trans there⟩

/-- **The service is decided about once** among the others. -/
theorem Held.decidedAll (h : Held n node p s) (finite : at_.isFinite = true) (now : Float)
    (bounded : n < twoTo 32) (hv : v.localNode = node)
    (config : v.localData?.bind (fun d => Entries.get? d.configs p) = some c)
    (seen : ∀ i, v.instance? node p = some i → i.monitor = record node p s)
    {x : Service.Situation} (hx : x = serviceSituation s v o at_ p c)
    (kept : x.config.orchestration = .ha) (most : x.maxStartRetries = n)
    (down : x.avail.isRunning = false) {services : List String} (nodup : services.Nodup)
    (there : p ∈ services) :
    ∃ r s', orchestrateAll at_ now v o services s = .ok r s' ∧ Held n node p s'
      ∧ Ledger node p s s' (if x.decide.action = some (.whole p .start) then 1 else 0)
        (if x.forgets ∧ (record node p s).state = .startFailed then 1 else 0) := by
  induction services generalizing s with
  | nil => cases there
  | cons q services ih =>
    obtain ⟨fresh, nodup⟩ := List.nodup_cons.1 nodup
    by_cases same : q = p
    · subst same
      obtain ⟨r, t, first, heldT, here⟩ :=
        h.decided finite now bounded hv config seen hx kept most down
      obtain ⟨⟨launched, failed⟩, s', rest, held, passed⟩ := heldT.passesAll at_ now hv o fresh
      exact ⟨_, s', orchestrateAll_cons first rest, held, here.trans passed⟩
    · obtain ⟨r, t, first, heldT, passed, beside, settings⟩ := h.passes at_ now hv o same
      have situation : x = serviceSituation t v o at_ p c :=
        hx.trans (serviceSituation_congr beside.running settings c).symm
      obtain ⟨⟨launched, failed⟩, s', rest, held, here⟩ := ih heldT (beside.record ▸ seen) situation
        nodup ((List.mem_cons.1 there).resolve_left (Ne.symm same))
      rw [beside.record] at here
      refine ⟨_, s', orchestrateAll_cons first rest, held, ?_⟩
      have total := passed.trans here
      rwa [Nat.zero_add, Nat.zero_add] at total

omit [World W] in
/-- The instance of a service that is configured is no orphan. -/
theorem ne_of_mem_orphans {q : String} (configured : p ∈ v.localServices)
    (orphan : q ∈ orphans s v) : q ≠ p := by
  rintro rfl
  have gone := (List.mem_filter.1 orphan).2
  rw [List.contains_iff_mem.2 configured] at gone
  cases gone

/-- The services of a round, of which this is one. -/
theorem Held.attended (h : Held n node p s) (finite : at_.isFinite = true) (now : Float)
    (bounded : n < twoTo 32) (o : Outlook) {x : Service.Situation} (there : p ∈ o.services at_ s)
    (found : situation? at_ (o.view at_ s) o.node s p = some x)
    (kept : x.config.orchestration = .ha) (most : x.maxStartRetries = n)
    (down : x.avail.isRunning = false) :
    ∃ launched s', attend at_ now o s = .ok (launched, []) s' ∧ Held n node p s'
      ∧ Ledger node p s s' (if x.decide.action = some (.whole p .start) then 1 else 0)
        (if x.forgets ∧ (record node p s).state = .startFailed then 1 else 0) := by
  have hv : (o.view at_ s).localNode = node := h.sound.daemon.name
  have seen (i : Service.Instance) (hi : (o.view at_ s).instance? node p = some i) :
      i.monitor = record node p s := by
    rw [← h.sound.daemon.name] at hi
    exact h.sound.daemon.monitor_of_instance? h.statuses hi
  obtain ⟨c, config, hx⟩ := Option.map_eq_some_iff.1 found
  unfold Outlook.services at there
  unfold attend
  cases held : o.node.hold with
  | true =>
    rw [held] at there
    cases there
  | false =>
    have local_ : p ∈ (o.view at_ s).localServices := by
      rw [held] at there
      exact there
    obtain ⟨launched, t, run, sound, -⟩ := orchestrateAll_ok Node.Blob.rule_anything hv h.sound at_
      now o.node (o.view at_ s).localServices
    obtain ⟨r, t', run', heldT, here⟩ := h.decidedAll finite now bounded hv config seen hx.symm kept
      most down h.sound.daemon.nodup_localServices local_
    cases run.symm.trans run'
    obtain ⟨u, s', dropped, sound', calm⟩ := quiet_dropOrphans hv t sound
    have beside := Beside.of_retains
      (retains_dropOrphans (frame_spared node p) hv fun _ _ => ne_of_mem_orphans local_)
      heldT.sound.daemon.name dropped (by rw [calm.running])
    obtain ⟨held', passed⟩ := heldT.beside beside sound'
    exact ⟨launched, s', (bind_ok run).trans (bind_ok dropped), held', here.trans passed⟩

omit [World W] in
/-- The rest of a round goes on beside the record. -/
theorem Held.concluded (h : Held n node p s) (at_ : Float) (o : Outlook)
    (launched : List Action) :
    ∃ r s', conclude at_ o (launched, []) s = .ok r s' ∧ Held n node p s'
      ∧ Ledger node p s s' 0 0 := by
  obtain ⟨r, s', concluded, sound, calm, -⟩ := conclude_ok h.sound at_ o launched
  have beside := Beside.of_retains
    (retains_conclude (frame_spared node p) (fun _ hn => hn) at_ o (launched, []))
    h.sound.daemon.name concluded (by rw [calm.running])
  exact ⟨r, s', concluded, h.beside beside sound⟩

/-! ## Rounds -/

namespace Turn

/-- The node holds its services in a round. -/
def holds (t : Turn W) : Bool :=
  match prepare t.host t.now t.at_ t.before with
  | .ok o _ => o.node.hold
  | .error _ _ => false

theorem holds_eq {o : Outlook} (h : prepare t.host t.now t.at_ t.before = .ok o s) :
    t.holds = o.node.hold := by
  unfold holds
  rw [h]

/-- A round tries an action, whether the launcher takes it or not. -/
def tries (t : Turn W) (a : Action) : Bool := a ∈ t.launched ∨ Event.done a none ∈ t.events

/-- The record of a service as a round finds it when the services come. -/
def found (p : String) (t : Turn W) : Service.Monitor :=
  match prepare t.host t.now t.at_ t.before with
  | .ok _ s => Node.Blob.instanceMonitor s.daemon.store s.daemon.nodeName p
  | .error _ _ => .blank

theorem found_eq {o : Outlook} (h : prepare t.host t.now t.at_ t.before = .ok o s)
    (name : s.daemon.nodeName = node) (p : String) : t.found p = record node p s := by
  unfold found record
  rw [h, ← name]

/-- A round forgets that the start of a service failed. -/
def forgets (p : String) (t : Turn W) : Bool :=
  (t.situation? p).any Service.Situation.forgets && (t.found p).state = .startFailed

/-- A round in which a service that the cluster keeps up gets nowhere: it is not
up, and the starts that ended have failed. -/
structure Fruitless (n : Nat) (p : String) (t : Turn W) : Prop where
  dated : t.at_.isFinite = true
  decided : t.holds ∨ ∃ x, t.situation? p = some x ∧ x.config.orchestration = .ha
    ∧ x.maxStartRetries = n ∧ x.avail.isRunning = false
  failed : ∀ r, t.report? = some r → ∀ code, (Action.whole p .start, code) ∈ r.completed → code ≠ 0

instance (n : Nat) (p : String) (t : Turn W) : Decidable (t.Fruitless n p) :=
  decidable_of_iff
    (t.at_.isFinite = true
      ∧ (t.holds ∨ (t.situation? p).any (fun x => x.config.orchestration = .ha
        && x.maxStartRetries = n && !x.avail.isRunning))
      ∧ t.report?.all (fun r => r.completed.all (fun e => e ≠ (Action.whole p .start, 0))))
    (by
      simp only [Option.any_eq_true, Option.all_eq_true, List.all_eq_true, Bool.and_eq_true,
        decide_eq_true_eq, Bool.not_eq_true']
      constructor
      · rintro ⟨dated, decided, failed⟩
        refine ⟨dated, decided.imp_right fun ⟨x, hx, ⟨kept, most⟩, down⟩ =>
          ⟨x, hx, kept, most, down⟩, fun r report code ended zero => ?_⟩
        exact failed r report _ ended (by rw [zero])
      · rintro ⟨dated, decided, failed⟩
        refine ⟨dated, decided.imp_right fun ⟨x, hx, kept, most, down⟩ =>
          ⟨x, hx, ⟨kept, most⟩, down⟩, fun r report e ended start => ?_⟩
        exact failed r report 0 (start ▸ ended) rfl)

end Turn

/-- A round reports the actions that ended. -/
theorem Sound.report_completed (h : Sound Node.Blob.anything node t.before)
    {done : List (Action × Int)} (settled : settle t.host t.now t.at_ t.before = .ok done s) :
    ∃ r, t.report? = some r ∧ r.completed = done := by
  have rule := Node.Blob.rule_anything
  obtain ⟨done', s', run, sound, -⟩ := settle_ok rule h t.host t.now t.at_
  cases settled.symm.trans run
  obtain ⟨o, u, surveyed, soundU, -, completed⟩ := survey_ok rule sound t.now t.at_ done
    fun r _ _ new => Node.Blob.accepts_anything r.service new
  obtain ⟨launched, w, attended, soundW, -⟩ := attend_ok rule soundU t.at_ t.now.wall o
  obtain ⟨r, x, concluded, -, -, -, reported⟩ := conclude_ok soundW t.at_ o launched
  have prepared : prepare t.host t.now t.at_ t.before = .ok o u := (bind_ok settled).trans surveyed
  exact ⟨r, Turn.report?_eq (round_of_parts prepared attended concluded), reported.trans completed⟩

/-- **The services of a round** in which one of them gets nowhere. -/
theorem Held.served (h : Held n node p s) (before : Sound Node.Blob.anything node t.before)
    (bounded : n < twoTo 32) (fruitless : t.Fruitless n p) {o : Outlook}
    (prepared : prepare t.host t.now t.at_ t.before = .ok o s) :
    ∃ launched s', attend t.at_ t.now.wall o s = .ok (launched, []) s' ∧ Held n node p s'
      ∧ Ledger node p s s' (if t.tries (.whole p .start) then 1 else 0)
        (if t.forgets p then 1 else 0) := by
  have tried := (before.tried Node.Blob.rule_anything t.accepts_anything (.whole p .start)).1
  have situation := Turn.situation?_eq prepared p
  rcases fruitless.decided with holds | ⟨x, hx, kept, most, down⟩
  · -- nothing is decided about the service
    rw [Turn.holds_eq prepared] at holds
    have undecided : t.situation? p = none := by
      rw [situation, Outlook.services, if_pos holds]
      rfl
    have untried : t.tries (.whole p .start) = false := by
      refine decide_eq_false fun tries => ?_
      obtain ⟨x, hx, -⟩ := tried.1 tries
      cases undecided.symm.trans hx
    have remembered : t.forgets p = false := by
      unfold Turn.forgets
      rw [undecided]
      rfl
    rw [untried, remembered]
    refine ⟨[], s, ?_, h.beside (.refl h.sound.daemon.name) h.sound⟩
    unfold attend
    rw [holds]
    rfl
  · have tries : t.tries (.whole p .start) = decide (x.decide.action = some (.whole p .start)) := by
      refine decide_eq_decide.2 (tried.trans ⟨?_, fun action => ⟨x, hx, action⟩⟩)
      rintro ⟨y, hy, action⟩
      cases hx.symm.trans hy
      exact action
    have forgets : t.forgets p
        = decide (x.forgets ∧ (record node p s).state = .startFailed) := by
      unfold Turn.forgets
      rw [hx, Turn.found_eq prepared h.sound.daemon.name, Bool.decide_and, Bool.decide_eq_true]
      rfl
    rw [situation] at hx
    split at hx
    · rename_i there
      rw [tries, forgets]
      simp only [decide_eq_true_eq]
      exact h.attended fruitless.dated t.now.wall bounded o there hx kept most down
    · cases hx

/-- **The account of a round.** -/
theorem Held.turn (h : Held n node p t.before) (bounded : n < twoTo 32)
    (fruitless : t.Fruitless n p) :
    Held n node p t.after ∧ Ledger node p t.before t.after
      (if t.tries (.whole p .start) then 1 else 0) (if t.forgets p then 1 else 0) := by
  obtain ⟨done, s₁, settled, spec⟩ := h.settled fruitless.dated t.host t.now
  obtain ⟨r, report, completed⟩ := h.sound.report_completed settled
  obtain ⟨held₁, first⟩ := spec (completed ▸ fruitless.failed r report)
  obtain ⟨o, s₂, surveyed, held₂, second⟩ := held₁.surveyed t.now t.at_ done
  have prepared : prepare t.host t.now t.at_ t.before = .ok o s₂ := (bind_ok settled).trans surveyed
  obtain ⟨launched, s₃, attended, held₃, third⟩ :=
    held₂.served h.sound bounded fruitless prepared
  obtain ⟨r', s₄, concluded, held₄, fourth⟩ := held₃.concluded t.at_ o launched
  have after : t.after = s₄ := Turn.after_eq (round_of_parts prepared attended concluded)
  have total := ((first.trans second).trans third).trans fourth
  simp only [Nat.zero_add, Nat.add_zero] at total
  rw [after]
  exact ⟨held₄, total⟩

/-! ## Runs -/

section

variable (settings : Daemon.Settings) (file : Option String) (start : Float) (w : W)

omit [World W] in
/-- A monitor that has not run yet has recorded nothing of a service. -/
theorem lookup_statuses_new :
    (new (Daemon.start settings file start) w).daemon.store.data.lookup
      (Node.Blob.statuses settings.nodeName) = some (.map []) := by
  simp [new, Daemon.start, Store.new, Node.Blob.statuses, Layout.services, Layout.node,
    Layout.nodes, Path.key, Path.child, Path.ofKeys, lookup, step?, Entries.get?, Node.emptyBlob,
    Value.empty]

omit [World W] in
/-- Its node has just started. -/
theorem lookup_nodeMonitor_new :
    (new (Daemon.start settings file start) w).daemon.store.data.lookup
      (Layout.nodeMonitor settings.nodeName)
      = some (.map [("status", .str "init"), ("status_updated", .float 0)]) := by
  simp [new, Daemon.start, Store.new, Layout.nodeMonitor, Layout.node, Layout.nodes, Path.key,
    Path.child, Path.ofKeys, lookup, step?, Entries.get?, Node.emptyBlob]

omit [World W] in
theorem statuses_new : HasMapping (new (Daemon.start settings file start) w).daemon.store.data
    (Node.Blob.statuses settings.nodeName) :=
  ⟨[], lookup_statuses_new settings file start w, Entries.Sorted.nil⟩

omit [World W] in
theorem record_new (p : String) : record settings.nodeName p
    (new (Daemon.start settings file start) w) = Service.Monitor.blank := by
  unfold record
  rw [Node.Blob.instanceMonitor_eq, show Layout.serviceMonitor settings.nodeName p
    = Node.Blob.statuses settings.nodeName ++ [.key p, .key "monitor"] from rfl, lookup_append,
    lookup_statuses_new]
  rfl

omit [World W] in
/-- A monitor that has not run yet has one attempt. -/
theorem held_new (n : Nat) (p : String) :
    Held n settings.nodeName p (new (Daemon.start settings file start) w)
      ∧ credit settings.nodeName p (new (Daemon.start settings file start) w) = 1
      ∧ retried (record settings.nodeName p (new (Daemon.start settings file start) w)) = 0 := by
  have blank := record_new settings file start w p
  refine ⟨⟨sound_new _ settings file start w, statuses_new settings file start w, ?_, ?_, ?_, ?_,
    fun _ none => (by cases none)⟩, ?_, ?_⟩
  · exact blank ▸ Service.Monitor.regular_blank
  · exact blank ▸ rfl
  · exact blank ▸ rfl
  · exact blank ▸ Nat.zero_le n
  · refine if_neg ?_
    rw [blank]
    rintro (busy | failed)
    · cases busy
    · cases failed
  · exact blank ▸ rfl

end

omit [World W] in
/-- What lies between two rounds has nothing to do with the service. -/
theorem Held.outside (h : Held n node p s) (step : Outside (Request.Detached p node) s s') :
    Held n node p s' ∧ Ledger node p s s' 0 0 := by
  have admitted : Admitted Node.Blob.anything node (Request.Detached p node) :=
    ⟨fun _ made => made.1, fun _ _ q new _ => Node.Blob.accepts_anything q new⟩
  have sound := (h.sound.outside Node.Blob.rule_anything admitted step).1
  refine h.beside ?_ sound
  cases step with
  | @request now r made =>
    have frame := frame_spared node p
    have since := Daemon.since_serve frame (.of_frame frame trivial now.wall)
      (fun q u same => by rintro rfl; exact made.2 u same) made.1 s.daemon
      (Daemon.since_refl frame h.sound.daemon.name)
    exact ⟨since.name, since.store.data, rfl⟩
  | aside name data running =>
    refine ⟨name.trans h.sound.daemon.name, ?_, by rw [running]⟩
    rw [data]
    exact (frame_spared node p).refl _

/-- How often a run tries to start a service as a whole. -/
def attempts (p : String) (ts : List (Turn W)) : Nat :=
  ts.countP (fun t => t.tries (.whole p .start))

/-- How often a run forgets that the start of a service failed. -/
def forgotten (p : String) (ts : List (Turn W)) : Nat := ts.countP (Turn.forgets p)

/-- **The account of a run.** -/
theorem Course.ledger (run : Course (Request.Detached p node) s ts s') (h : Held n node p s)
    (bounded : n < twoTo 32) (fruitless : ∀ t ∈ ts, t.Fruitless n p) :
    Held n node p s' ∧ Ledger node p s s' (attempts p ts) (forgotten p ts) := by
  induction run with
  | refl => exact h.beside (.refl h.sound.daemon.name) h.sound
  | outside _ step ih =>
    obtain ⟨held, account⟩ := ih fruitless
    obtain ⟨held', between⟩ := held.outside step
    exact ⟨held', account.trans between⟩
  | round t _ ih =>
    obtain ⟨held, account⟩ := ih fun u hu => fruitless u (List.mem_append_left _ hu)
    obtain ⟨held', one⟩ :=
      held.turn bounded (fruitless t (List.mem_append_right _ List.mem_cons_self))
    refine ⟨held', ?_⟩
    unfold attempts forgotten
    rw [List.countP_append, List.countP_append, List.countP_singleton, List.countP_singleton]
    exact account.trans one

/-- On every run on which the record of a service is left to the monitor and the
service gets nowhere, its start is tried once and as often as it may be retried,
at most. -/
def KeepsBudget (W : Type) [World W] (p : String) : Prop :=
  ∀ (settings : Daemon.Settings) (file : Option String) (start : Float) (w s : _)
    (ts : List (Turn W)) (n : Nat),
    Course (Request.Detached p settings.nodeName) (new (Daemon.start settings file start) w) ts s →
      n < twoTo 32 → (∀ t ∈ ts, t.Fruitless n p) → attempts p ts ≤ n + 1

/-- **How often a start is tried.** Whatever is reported of a service that is
never up, and however its starts fail, it is tried once, once for every retry that
is allowed, and once for every round that forgets a failure, at most. -/
theorem attempts_le {settings : Daemon.Settings} {file : Option String} {start : Float} {w : W}
    (run : Course (Request.Detached p settings.nodeName) (new (Daemon.start settings file start) w)
      ts s)
    (bounded : n < twoTo 32) (fruitless : ∀ t ∈ ts, t.Fruitless n p) :
    attempts p ts ≤ n + 1 + forgotten p ts := by
  obtain ⟨held, full, fresh⟩ := held_new settings file start w n p
  obtain ⟨held', account⟩ := run.ledger held bounded fruitless
  have within := held'.within
  unfold Ledger at account
  rw [full, fresh] at account
  omega

namespace Script

/-- The monitor in a world that reports the service in a way, and that launches
nothing. -/
def reporting (a : Avail) (s : Monitor Simulation.World) : Monitor Simulation.World :=
  { s with world :=
    { (Simulation.World.new false false).setAvail "svc" a with refusing := true } }

/-- Rounds at some times, in milliseconds, while the service is reported in a
way. -/
def turnsWhile (a : Avail) (times : List Nat) (s : Monitor Simulation.World) :
    List (Turn Simulation.World) × Monitor Simulation.World :=
  turnsAt ⟨"n1", 0⟩ (times.map Moment.ofMillis) (reporting a s)

/-- The service is reported down, and its start is tried. -/
def failing : List (Turn Simulation.World) × Monitor Simulation.World :=
  turnsWhile .down [0, 1000, 2000, 8000] configured

/-- Then it is reported `unknown` for one round. -/
def lost : List (Turn Simulation.World) × Monitor Simulation.World :=
  turnsWhile .unknown [9000] failing.2

/-- And then it is reported down again. -/
def again : List (Turn Simulation.World) × Monitor Simulation.World :=
  turnsWhile .down [10000, 11000, 17000] lost.2

/-- The rounds of the run. -/
def lapse : List (Turn Simulation.World) := failing.1 ++ lost.1 ++ again.1

theorem course_turnsWhile {allowed : Request → Prop} {s s' : Monitor Simulation.World}
    {ts : List (Turn Simulation.World)} (run : Course allowed s ts s') (a : Avail)
    (times : List Nat) :
    Course allowed s (ts ++ (turnsWhile a times s').1) (turnsWhile a times s').2 := by
  have reported : Outside allowed s' (reporting a s') := .aside rfl rfl rfl
  exact (run.outside reported).trans (course_turnsAt allowed _ _ _)

theorem course_lapse : Course (Request.Detached "svc" settings.nodeName) fresh lapse again.2 := by
  have asked : Request.Detached "svc" settings.nodeName request :=
    ⟨fun _ _ peer => (by cases peer), fun _ changes => (by cases changes)⟩
  have start : Course (Request.Detached "svc" settings.nodeName) fresh [] configured :=
    (Course.refl fresh).outside (.request (Moment.ofMillis 0) asked)
  have down : Course _ fresh ([] ++ failing.1) failing.2 := course_turnsWhile start _ _
  rw [List.nil_append] at down
  have unknown : Course _ fresh (failing.1 ++ lost.1) lost.2 := course_turnsWhile down _ _
  exact course_turnsWhile unknown .down [10000, 11000, 17000]

theorem fruitless_lapse : ∀ t ∈ lapse, t.Fruitless 0 "svc" := by decide +kernel

theorem attempts_lapse : attempts "svc" lapse = 2 := by decide +kernel

end Script

open Script

/-- Without a retry there are two attempts, and the bound is met. -/
theorem attempts_lapse_le :
    (∀ t ∈ lapse, t.Fruitless 0 "svc")
      ∧ attempts "svc" lapse ≤ 0 + 1 + forgotten "svc" lapse
      ∧ attempts "svc" lapse = 2 ∧ forgotten "svc" lapse = 1 :=
  ⟨fruitless_lapse, attempts_le course_lapse (by decide) fruitless_lapse, attempts_lapse,
    by decide +kernel⟩

/-- The fourth round tries the start, the fifth one finds the local status unknown
and forgets that it failed, and the last one tries it again. -/
theorem not_keepsBudget : ¬ KeepsBudget Simulation.World "svc" := by
  intro keeps
  have within := keeps _ _ _ _ _ _ 0 course_lapse (by decide) fruitless_lapse
  rw [attempts_lapse] at within
  exact absurd within (by decide)

end Monitor

end HaCluster
