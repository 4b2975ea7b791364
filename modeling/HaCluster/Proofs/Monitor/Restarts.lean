import HaCluster.Proofs.Monitor.Counters

/-!
# How often a resource is restarted

A resource that is down while the instance runs is restarted as long as its counter
is below what its report grants, and every restart is counted. So from one time that
the counter is dropped to the next there are no more restarts than the largest grant:
along a run, what was restarted is paid for by the counter and by the drops
(`History.account`).

The counters of the resources lie in one mapping with that of the starts. When the
instance runs and nothing of it is down, the starts that failed are forgotten, and
the counter of the starts is dropped. A resource that is called like it loses its
own, and is restarted over and over (`not_keepsRestartBudget`). No other counter is
ever dropped (`dropped_eq_zero`).
-/

namespace HaCluster

open Value Mutation

/-- A request that neither speaks for a node as its peer nor resets the counters of
a service. -/
def Request.KeepsRetries (node : String) (r : Request) : Prop :=
  r.Foreign node ∧ ∀ q u, r = .setInstance q u → u.resetRetries = false

namespace Monitor

open Service.Monitor (counter_congr)

variable {W : Type} [World W] {node p rid : String} {s s' : Monitor W} {t : Turn W}
  {ts : List (Turn W)} {es : List (Stage W)}

/-! ## What is counted -/

namespace Turn

/-- The restarts that the report of a service grants a resource, where a round
decides about the service. -/
def grants (p rid : String) (t : Turn W) : List Nat :=
  (((t.situation? p).bind Service.Situation.instance?).map Service.Instance.resources).getD []
    |>.filterMap fun e => if e.1 = rid then some e.2.restarts else none

/-- A round drops the counter of a resource. -/
def dropsCounter (p rid : String) (t : Turn W) : Bool :=
  (t.situation? p).any fun x => x.decide.dropRetries = some rid

/-- What a round counts about a service can be counted, in the bits of a counter. -/
def Fits (p : String) (t : Turn W) : Prop :=
  ∀ x key, t.situation? p = some x → x.decide.countRetry = some key →
    (t.found p).counter key + 1 < twoTo 32

theorem mem_grants {x : Service.Situation} {i : Service.Instance} {r : Service.Resource}
    (decides : t.situation? p = some x) (seen : x.instance? = some i)
    (mem : (rid, r) ∈ i.resources) : r.restarts ∈ t.grants p rid := by
  unfold grants
  rw [decides, Option.bind_some, seen]
  exact List.mem_filterMap.2 ⟨(rid, r), mem, if_pos rfl⟩

end Turn

/-- How often a run restarts a resource. -/
def restarts (p rid : String) (ts : List (Turn W)) : Nat :=
  (ts.flatMap Turn.launched).count (.onResource p .start rid)

/-- The most restarts that the reports of a run grant a resource. -/
def mostGranted (p rid : String) (ts : List (Turn W)) : Nat :=
  (ts.flatMap (Turn.grants p rid)).max?.getD 0

/-- How often a run drops the counter of a resource. -/
def dropped (p rid : String) (ts : List (Turn W)) : Nat := ts.countP (Turn.dropsCounter p rid)

/-- A service that a round finds configured stays so, in the same way. -/
def StaysConfigured (p : String) (ts : List (Turn W)) : Prop :=
  ts.Pairwise fun t t' => ∀ x ∈ t.situation? p,
    t'.holds ∨ (t'.situation? p).map Service.Situation.config = some x.config

instance (p : String) (ts : List (Turn W)) : Decidable (StaysConfigured p ts) :=
  inferInstanceAs (Decidable (ts.Pairwise _))

theorem restarts_append (p rid : String) (ts us : List (Turn W)) :
    restarts p rid (ts ++ us) = restarts p rid ts + restarts p rid us := by
  unfold restarts
  rw [List.flatMap_append, List.count_append]

theorem restarts_singleton (p rid : String) (t : Turn W) :
    restarts p rid [t] = t.launched.count (.onResource p .start rid) := by
  unfold restarts
  rw [List.flatMap_singleton]

theorem dropped_append (p rid : String) (ts us : List (Turn W)) :
    dropped p rid (ts ++ us) = dropped p rid ts + dropped p rid us := List.countP_append

/-! ## Rounds -/

/-- A resource is restarted where that is decided. -/
theorem Sound.restart_decided (h : Sound Node.Blob.anything node t.before)
    (mem : .onResource p .start rid ∈ t.launched) :
    ∃ x, t.situation? p = some x ∧ x.decide.action = some (.onResource p .start rid) :=
  ((h.mem_launched_iff Node.Blob.rule_anything t.accepts_anything _).1 mem).1

/-- A round restarts a resource once at most. -/
theorem Sound.restarts_le_one (h : Sound Node.Blob.anything node t.before) (p rid : String) :
    restarts p rid [t] ≤ 1 := by
  have orderly := h.orderly Node.Blob.rule_anything t.accepts_anything
  rw [restarts_singleton]
  exact List.nodup_iff_count_le_one.1 (.of_map Action.path orderly.launched) _

/-- Rounds that do not decide about a service restart nothing of it. -/
theorem restarts_eq_zero (sound : ∀ t ∈ ts, Sound Node.Blob.anything node t.before)
    (undecided : ∀ t ∈ ts, t.situation? p = none) (rid : String) : restarts p rid ts = 0 := by
  refine List.count_eq_zero.2 fun mem => ?_
  obtain ⟨t, ht, mem⟩ := List.mem_flatMap.1 mem
  obtain ⟨x, decides, -⟩ := (sound t ht).restart_decided mem
  cases (undecided t ht).symm.trans decides

/-- A restart is decided on while there is one left, and is counted. -/
theorem Tallied.restarted (h : Tallied node p t) {n : Nat} (granted : ∀ g ∈ t.grants p rid, g ≤ n)
    {x : Service.Situation} (decides : t.situation? p = some x)
    (action : x.decide.action = some (.onResource p .start rid)) :
    (t.found p).counter rid < n
      ∧ (record node p t.after).counter rid = (t.found p).counter rid + 1 := by
  obtain ⟨e, effects, ruling⟩ := x.exists_ruling
  have launched : e.action = some (.onResource p .start rid) := effects ▸ action
  cases ruling with
  | rests | retries | settles => cases launched
  | empties | stops | freezes | thaws | provisions | starts => cases launched
  | restarts _ _ _ i seen _ rid' r fallen left =>
    cases launched
    have counts : x.decide.countRetry = some rid := congrArg Service.Effects.count effects
    have keeps : x.decide.dropRetries = none := congrArg Service.Effects.drop effects
    have grant := granted _ (Turn.mem_grants decides seen (List.mem_of_find?_eq_some fallen))
    refine ⟨?_, ?_⟩
    · rw [← h.seen x i decides seen]
      exact Nat.lt_of_lt_of_le left grant
    · rw [counter_congr (h.decided x decides), counter_applyDecision, keeps, counts,
        if_neg nofun, if_pos rfl]

/-- Whatever is decided, a counter that is not dropped does not shrink. -/
theorem Tallied.counter_le (h : Tallied node p t) (decided : t.holds ∨ (t.situation? p).isSome)
    (kept : t.dropsCounter p rid = false) :
    (t.found p).counter rid ≤ (record node p t.after).counter rid := by
  rcases decided with holds | some
  · exact (counter_congr (h.held holds) rid).ge
  · obtain ⟨x, decides⟩ := Option.isSome_iff_exists.1 some
    have keeps : x.decide.dropRetries ≠ Option.some rid := by
      unfold Turn.dropsCounter at kept
      rw [decides] at kept
      simpa using kept
    rw [counter_congr (h.decided x decides), counter_applyDecision, if_neg keeps]
    exact Nat.le_add_right _ _

/-- **The account of a round**: a restart is paid for by the counter, and what the
counter is short of afterwards by a drop. -/
theorem Tallied.account (h : Tallied node p t) (sound : Sound Node.Blob.anything node t.before)
    {n : Nat} (granted : ∀ g ∈ t.grants p rid, g ≤ n)
    (decided : t.holds ∨ (t.situation? p).isSome) :
    restarts p rid [t] + min ((record node p t.before).counter rid) n
      ≤ n * dropped p rid [t] + min ((record node p t.after).counter rid) n := by
  rw [← counter_congr h.found]
  by_cases mem : .onResource p .start rid ∈ t.launched
  · obtain ⟨x, decides, action⟩ := sound.restart_decided mem
    obtain ⟨left, counted⟩ := h.restarted granted decides action
    have once := sound.restarts_le_one p rid
    omega
  · have none : restarts p rid [t] = 0 := by
      rw [restarts_singleton]
      exact List.count_eq_zero.2 mem
    cases drops : t.dropsCounter p rid with
    | true =>
      have one : dropped p rid [t] = 1 := by
        unfold dropped
        rw [List.countP_singleton, if_pos drops]
      rw [none, one]
      omega
    | false =>
      have kept := h.counter_le decided drops
      omega

/-- **Only the counter of the starts is dropped.** -/
theorem dropped_eq_zero (ne : rid ≠ Service.serviceRetries) (p : String) (ts : List (Turn W)) :
    dropped p rid ts = 0 := by
  refine List.countP_eq_zero.2 fun t _ drops => ne ?_
  obtain ⟨x, -, drop⟩ := (Option.any_eq_true _ _).1 drops
  obtain ⟨e, effects, ruling⟩ := x.exists_ruling
  have lost : e.drop = some rid := effects ▸ of_decide_eq_true drop
  cases ruling <;> cases lost
  rfl

/-! ## What lies between the rounds -/

omit [World W] in
/-- **A request** that does not reset the counters of a service leaves them alone. -/
theorem counters_serve {d : Daemon} (h : Daemon.Sound Node.Blob.anything node d) {now : Moment}
    (finite : now.wall.isFinite = true) {r : Request} (keeps : r.KeepsRetries node)
    (legible : Node.Blob.LegibleInstance node p d.store.data) :
    (Node.Blob.instanceMonitor (Daemon.Step.after (Daemon.serve now r) d).store node p).retries
      = (Node.Blob.instanceMonitor d.store node p).retries := by
  obtain ⟨foreign, unreset⟩ := keeps
  by_cases changes : ∃ u, r = .setInstance p u
  · obtain ⟨u, rfl⟩ := changes
    obtain ⟨changed, s, run, -⟩ := Node.Blob.keeps_updateInstanceMonitor (p := p)
      Node.Blob.rule_anything now.wall u.apply d.store h.shaped
    have next := Service.Monitor.regular_apply u legible.regular
    rw [Daemon.store_after_setInstance (h.name ▸ run),
      Node.Blob.counters_of_update finite next run]
    exact Service.Update.retries_apply (unreset p u rfl) _
  · have frame := Node.Blob.frame_counters node p
    have since := Daemon.since_serve frame (.of_frame frame trivial now.wall)
      (fun q u same => by rintro rfl; exact changes ⟨u, same⟩) foreign d
      (Daemon.since_refl frame h.name)
    obtain ⟨-, same⟩ := since.store.data legible
    rw [Node.Blob.countersIn_data, Node.Blob.countersIn_data] at same
    exact same

omit [World W] in
/-- Without a round the counters stay as they are. -/
theorem Legible.unturned [World W] {e : Stage W} (h : Legible node e.before)
    (possible : e.Allowed (Request.KeepsRetries node))
    (finite : ∀ u, e.time? = some u → u.isFinite = true) (unturned : turnsOf [e] = []) :
    (record node p e.after).retries = (record node p e.before).retries := by
  cases e with
  | round t => cases unturned
  | request now r s => exact counters_serve h.sound.daemon (finite _ rfl) possible (h.instances p)
  | aside s s' =>
    show (Node.Blob.instanceMonitor s'.daemon.store node p).retries = _
    rw [Node.Blob.instanceMonitor_eq, possible.2.1, ← Node.Blob.instanceMonitor_eq]
    rfl

/-! ## Runs -/

/-- What comes before a round of a history that finds a service unconfigured finds it so
too, if a service stays configured. -/
theorem StaysConfigured.undecided (h : StaysConfigured p (ts ++ [t]))
    (unconfigured : ¬ (t.holds ∨ (t.situation? p).isSome)) : ∀ u ∈ ts, u.situation? p = none := by
  intro u hu
  by_contra decides
  obtain ⟨x, decides⟩ := Option.ne_none_iff_exists'.1 decides
  rcases (List.pairwise_append.1 h).2.2 u hu t (List.mem_singleton_self t) x decides with
    holds | config
  · exact unconfigured (.inl holds)
  · obtain ⟨y, there, -⟩ := Option.map_eq_some_iff.1 config
    exact unconfigured (.inr (Option.isSome_iff_exists.2 ⟨y, there⟩))

/-- The rounds of a history find records that can be read. -/
theorem History.legible_before (run : History (Request.KeepsRetries node) s es s')
    (start : Legible node s) (finite : ∀ e ∈ es, ∀ u, e.time? = some u → u.isFinite = true)
    (bounded : ∀ e ∈ es, e.before.daemon.settings.Bounded) (ht : t ∈ turnsOf es) :
    Stage.round t ∈ es ∧ Legible node t.before := by
  obtain ⟨e, mem, turn⟩ := List.mem_filterMap.1 ht
  obtain rfl : e = .round t := by
    cases e <;> cases turn
    rfl
  obtain ⟨past, future, rfl⟩ := List.append_of_mem mem
  have upTo : History (Request.Foreign node) s past t.before :=
    (run.mono fun _ keeps => keeps.1).upTo
  exact ⟨mem, upTo.legible (fun f hf => finite f (List.mem_append_left _ hf))
    (fun f hf => bounded f (List.mem_append_left _ hf)) start⟩

/-- One more round keeps the account. -/
theorem Legible.accounts (h : Legible node t.before) (finite : t.at_.isFinite = true)
    (bounded : t.before.daemon.settings.Bounded)
    (sound : ∀ u ∈ ts, Sound Node.Blob.anything node u.before) {n : Nat}
    (granted : ∀ g ∈ t.grants p rid, g ≤ n) (configured : StaysConfigured p (ts ++ [t]))
    (before : restarts p rid ts
      ≤ n * dropped p rid ts + min ((record node p t.before).counter rid) n) :
    restarts p rid (ts ++ [t])
      ≤ n * dropped p rid (ts ++ [t]) + min ((record node p t.after).counter rid) n := by
  by_cases decided : t.holds ∨ (t.situation? p).isSome
  · have account := (h.tallied finite bounded p).account h.sound granted decided
    rw [restarts_append, dropped_append, Nat.mul_add]
    omega
  -- nothing is restarted before the service is configured
  · have undecided : ∀ u ∈ ts ++ [t], u.situation? p = none := by
      intro u hu
      rcases List.mem_append.1 hu with hu | hu
      · exact configured.undecided decided u hu
      · cases List.mem_singleton.1 hu
        simpa using (not_or.1 decided).2
    have all : ∀ u ∈ ts ++ [t], Sound Node.Blob.anything node u.before :=
      List.forall_mem_append.2 ⟨sound, List.forall_mem_singleton.2 h.sound⟩
    rw [restarts_eq_zero all undecided]
    exact Nat.zero_le _

/-- **The account of a run**: what it restarts is paid for by the counter and by the
drops. -/
theorem History.account (run : History (Request.KeepsRetries node) s es s')
    (start : Legible node s) (finite : ∀ e ∈ es, ∀ u, e.time? = some u → u.isFinite = true)
    (bounded : ∀ e ∈ es, e.before.daemon.settings.Bounded) {n : Nat}
    (granted : ∀ t ∈ turnsOf es, ∀ g ∈ t.grants p rid, g ≤ n)
    (configured : StaysConfigured p (turnsOf es)) :
    restarts p rid (turnsOf es)
      ≤ n * dropped p rid (turnsOf es) + min ((record node p s').counter rid) n := by
  induction run with
  | refl => exact Nat.zero_le _
  | @stage es e run possible ih =>
    have last : e ∈ es ++ [e] := List.mem_append_right es (List.mem_singleton_self e)
    have earlier := fun f hf => finite f (List.mem_append_left [e] hf)
    have limits := fun f hf => bounded f (List.mem_append_left [e] hf)
    have legible : Legible node e.before :=
      (run.mono fun _ keeps => keeps.1).legible earlier limits start
    rw [turnsOf_append] at granted configured ⊢
    have before := ih earlier limits (fun t ht => granted t (List.mem_append_left _ ht))
      (List.pairwise_append.1 configured).1
    cases e with
    | round t =>
      exact legible.accounts (finite _ last _ rfl) (bounded _ last)
        (fun u hu => (run.legible_before start earlier limits hu).2.sound)
        (granted t (List.mem_append_right _ (.head _))) configured before
    | request now r s | aside s s' =>
      rw [counter_congr (legible.unturned possible (finite _ last) rfl)]
      exact (List.append_nil (turnsOf es)).symm ▸ before

/-- **How often a resource is restarted.** Whatever is reported, whatever comes of the
actions, and whatever is requested but to reset the counters: a service that stays
configured has its resource restarted no more often than the largest grant of its
reports, from one drop of the counter to the next. No counter but that of the starts
is dropped, and none outgrows its bits. -/
theorem restarts_le {settings : Daemon.Settings} {file : Option String} {start : Float} {w : W}
    (run : History (Request.KeepsRetries settings.nodeName)
      (new (Daemon.start settings file start) w) es s)
    (finite : ∀ e ∈ es, ∀ u, e.time? = some u → u.isFinite = true)
    (bounded : ∀ e ∈ es, e.before.daemon.settings.Bounded)
    (configured : StaysConfigured p (turnsOf es)) (rid : String) :
    restarts p rid (turnsOf es)
        ≤ mostGranted p rid (turnsOf es) * (dropped p rid (turnsOf es) + 1)
      ∧ (rid ≠ Service.serviceRetries →
        restarts p rid (turnsOf es) ≤ mostGranted p rid (turnsOf es))
      ∧ ∀ t ∈ turnsOf es, ∀ q, t.Fits q := by
  have fresh := legible_new settings file start w
  have granted : ∀ t ∈ turnsOf es, ∀ g ∈ t.grants p rid, g ≤ mostGranted p rid (turnsOf es) :=
    fun t ht g hg => List.le_max?_getD_of_mem (List.mem_flatMap.2 ⟨t, ht, hg⟩)
  have account := run.account fresh finite bounded granted configured
  refine ⟨?_, fun ne => ?_, fun t ht q x key decides counts => ?_⟩
  · rw [Nat.mul_add]
    omega
  · rw [dropped_eq_zero ne] at account
    omega
  · obtain ⟨mem, legible⟩ := run.legible_before fresh finite bounded ht
    exact (legible.tallied (finite _ mem _ rfl) (bounded _ mem) q).room x key decides counts

/-- While settings and configurations stay as they are, and nobody resets the counters,
a resource is restarted no more often than its reports ever grant, and no counter
overflows. -/
def KeepsRestartBudget (W : Type) [World W] (p rid : String) : Prop :=
  ∀ (settings : Daemon.Settings) (file : Option String) (start : Float) (w s : _)
    (es : List (Stage W)),
    History (fun r => ∀ q u, r = .setInstance q u → u.resetRetries = false)
        (new (Daemon.start settings file start) w) es s →
      (∀ e ∈ es, e.before.daemon.settings = settings ∧ e.after.daemon.settings = settings) →
      settings.Bounded → Timed es → StaysConfigured p (turnsOf es) →
      restarts p rid (turnsOf es) ≤ mostGranted p rid (turnsOf es)
        ∧ ∀ t ∈ turnsOf es, ∀ q, t.Fits q

namespace Script

/-- What is reported of an instance that is up: a resource that is watched and may be
restarted once. -/
def reportOf (rid : String) (status : Avail) : Value :=
  .map [("avail", .str "up"), ("overall", .str "up"), ("resources",
    .map [(rid, { Service.Resource.blank with
      status := status, monitored := true, restarts := 1 }.toValue)])]

/-- The monitor in a world where the resource is reported in a way. -/
def showing (rid : String) (status : Avail) (s : Monitor Simulation.World) :
    Monitor Simulation.World :=
  { s with world := s.world.setDocument "svc" (reportOf rid status) }

/-- What is reported of the resource from time to time, and the rounds that find it
so. -/
def reports (rid : String) : List (Avail × List Nat) → Monitor Simulation.World →
    List (Stage Simulation.World) × Monitor Simulation.World
  | [], s => ([], s)
  | (status, times) :: rest, s =>
    let shown := showing rid status s
    let (ts, s') := turnsAt ⟨"n1", 0⟩ (times.map Moment.ofMillis) shown
    let (es, s'') := reports rid rest s'
    (.aside s shown :: ts.map .round ++ es, s'')

theorem history_reports (allowed : Request → Prop) (rid : String)
    (phases : List (Avail × List Nat)) (s : Monitor Simulation.World) :
    History allowed s (reports rid phases s).1 (reports rid phases s).2 := by
  induction phases generalizing s with
  | nil => exact .refl s
  | cons phase rest ih =>
    obtain ⟨status, times⟩ := phase
    let host : Daemon.Host := ⟨"n1", 0⟩
    let times := times.map Moment.ofMillis
    have shown : History allowed s (.aside s (showing rid status s)
        :: (turnsAt host times (showing rid status s)).1.map .round)
        (turnsAt host times (showing rid status s)).2 :=
      history_aside_turnsAt allowed host times rfl rfl rfl
    exact shown.trans (ih _)

/-- The resource goes down, is up again after its restart, and goes down again. -/
def outages : List (Avail × List Nat) :=
  [(.up, [0, 1000, 2000]), (.down, [3000]), (.up, [4000]), (.down, [5000])]

/-- The run on which a resource goes down twice. -/
def flapping (rid : String) : List (Stage Simulation.World) :=
  [.request (Moment.ofMillis 0) request fresh] ++ (reports rid outages configured).1

theorem history_flapping {allowed : Request → Prop} (asked : allowed request) (rid : String) :
    History allowed fresh (flapping rid) (reports rid outages configured).2 :=
  (history_request asked).trans (history_reports allowed rid outages configured)

end Script

open Script

/-- A resource is restarted once, and left alone when it goes down again. -/
theorem restarts_le_flapping :
    History (Request.KeepsRetries settings.nodeName) fresh (flapping "fs#1")
        (reports "fs#1" outages Script.configured).2
      ∧ (∀ e ∈ flapping "fs#1", ∀ u, e.time? = some u → u.isFinite = true)
      ∧ (∀ e ∈ flapping "fs#1", e.before.daemon.settings.Bounded)
      ∧ StaysConfigured "svc" (turnsOf (flapping "fs#1"))
      ∧ restarts "svc" "fs#1" (turnsOf (flapping "fs#1")) = 1
      ∧ restarts "svc" "fs#1" (turnsOf (flapping "fs#1"))
        ≤ mostGranted "svc" "fs#1" (turnsOf (flapping "fs#1")) := by
  have asked : Request.KeepsRetries settings.nodeName request :=
    ⟨fun _ _ peer => (by cases peer), fun _ _ changes => (by cases changes)⟩
  have timed : Timed (flapping "fs#1") := by decide +kernel
  have bounded : ∀ e ∈ flapping "fs#1", e.before.daemon.settings.Bounded := by decide +kernel
  have configured : StaysConfigured "svc" (turnsOf (flapping "fs#1")) := by decide +kernel
  have run := history_flapping asked "fs#1"
  obtain ⟨-, within, -⟩ := restarts_le run timed.finite_of_mem bounded configured "fs#1"
  exact ⟨run, timed.finite_of_mem, bounded, configured, by decide +kernel, within (by decide)⟩

/-- A resource that is called like the counter of the starts is restarted twice, though
its reports grant one restart. -/
theorem not_keepsRestartBudget : ¬ KeepsRestartBudget Simulation.World "svc" "service" := by
  intro keeps
  have asked : ∀ q u, request = .setInstance q u → u.resetRetries = false :=
    fun _ _ changes => (by cases changes)
  have steady : ∀ e ∈ flapping "service",
      e.before.daemon.settings = settings ∧ e.after.daemon.settings = settings := by decide +kernel
  have timed : Timed (flapping "service") := by decide +kernel
  have configured : StaysConfigured "svc" (turnsOf (flapping "service")) := by decide +kernel
  obtain ⟨within, -⟩ := keeps settings none 0 _ _ _ (history_flapping asked "service") steady
    (by decide +kernel) timed configured
  have twice : restarts "svc" "service" (turnsOf (flapping "service")) = 2 := by decide +kernel
  have once : mostGranted "svc" "service" (turnsOf (flapping "service")) = 1 := by
    decide +kernel
  rw [twice, once] at within
  exact absurd within (by decide)

end Monitor

end HaCluster
