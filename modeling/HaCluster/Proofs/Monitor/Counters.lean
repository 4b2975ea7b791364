import HaCluster.Proofs.Monitor.WellFormed
import HaCluster.Proofs.Node.Counters

/-!
# The retry counters along a round

A round writes the record of a service where an action on it has ended, and where
the service is decided about. The first leaves the counters alone, and so does
everything else that a round does, unless it drops an instance that is not
configured any more. So what a round leaves of the counters of a service is what
the decision makes of them: it increments the counter that it counts, and drops the
one that it drops (`Legible.tallied`).

The decision looks at the counters that are kept, and counts only what is below a
bound. So no counter outgrows its bits.
-/

namespace HaCluster

open Value Mutation

namespace Service

/-- How often something was counted under a key. -/
def Monitor.counter (m : Monitor) (key : String) : Nat := (Entries.get? m.retries key).getD 0

theorem Monitor.counter_congr {m m' : Monitor} (same : m.retries = m'.retries) (key : String) :
    m.counter key = m'.counter key := by
  unfold counter
  rw [same]

/-- A change that does not reset the counters leaves them alone. -/
theorem Update.retries_apply {u : Update} (keeps : u.resetRetries = false) (m : Monitor) :
    (u.apply m).retries = m.retries := by
  unfold apply
  dsimp only
  rw [keeps]
  rfl

end Service

namespace Monitor

open Daemon (Since)
open Node.Blob (LegibleInstance SameCounters)

variable {W : Type} {α : Type} {node p : String} {s s' : Monitor W} {at_ now : Float} {v : View}
  {o : NodeOutcome}

/-- What a decision counts. -/
theorem counter_applyDecision_counting {d : Service.Decision} (kept : d.dropRetries = none)
    (m : Service.Monitor) (key : String) :
    (applyDecision d m).counter key
      = m.counter key + if d.countRetry = some key then 1 else 0 := by
  unfold applyDecision Service.Monitor.counter
  rw [kept]
  cases d.countRetry with
  | none => rfl
  | some k =>
    by_cases same : k = key
    · subst same
      rw [if_pos rfl]
      exact congrArg (Option.getD · 0) (Entries.get?_insert_self _ _ _)
    · rw [if_neg fun h => same (Option.some.inj h)]
      exact congrArg (Option.getD · 0) (Entries.get?_insert_of_ne _ _ (Ne.symm same))

/-- What a decision drops is dropped from what it counts. -/
theorem retries_applyDecision_dropping {d : Service.Decision} {k : String}
    (drops : d.dropRetries = some k) (m : Service.Monitor) :
    (applyDecision d m).retries
      = Entries.erase (applyDecision { d with dropRetries := none } m).retries k := by
  unfold applyDecision
  rw [drops]

/-- **A decision** drops a counter, increments it, or leaves it alone. -/
theorem counter_applyDecision (d : Service.Decision) (m : Service.Monitor) (key : String) :
    (applyDecision d m).counter key = if d.dropRetries = some key then 0
      else m.counter key + if d.countRetry = some key then 1 else 0 := by
  cases drops : d.dropRetries with
  | none => exact counter_applyDecision_counting drops m key
  | some k =>
    unfold Service.Monitor.counter
    rw [retries_applyDecision_dropping drops, Entries.get?_erase]
    by_cases same : k = key
    · rw [if_pos same.symm, if_pos (congrArg some same), Option.getD_none]
    · rw [if_neg (Ne.symm same), if_neg fun h => same (Option.some.inj h)]
      exact counter_applyDecision_counting (d := { d with dropRetries := none }) rfl m key

/-- A step that leaves the counters alone leaves them as they were in the record. -/
theorem kept_of_retains {m : Step W α} {a : α}
    (retains : Retains (Since node (SameCounters node p) s.daemon.store) m)
    (name : s.daemon.nodeName = node) (legible : LegibleInstance node p s.daemon.store.data)
    (run : m s = .ok a s') :
    LegibleInstance node p s'.daemon.store.data
      ∧ (record node p s').retries = (record node p s).retries := by
  have since := retains.of_ok run (Daemon.since_refl (Node.Blob.frame_counters node p) name)
  obtain ⟨legible', same⟩ := since.store.data legible
  rw [Node.Blob.countersIn_data, Node.Blob.countersIn_data] at same
  exact ⟨legible', same⟩

/-- Whatever service an action is on, its end leaves the counters alone. -/
theorem within_outcome_counters (finite : at_.isFinite = true) (a : Action) (success : Bool) :
    Within (Store.Framed (SameCounters node p))
      (Node.Blob.updateInstanceMonitor node a.path at_ (outcome a success)) := by
  by_cases same : a.path = p
  · rw [same]
    refine Node.Blob.within_update_counters finite (fun _ => regular_outcome a success) fun m => ?_
    unfold outcome
    dsimp only
    split <;> rfl
  · exact Node.Blob.framed_updateInstanceMonitor (Node.Blob.frame_counters node p)
      (.record same) at_ _

variable [World W]

/-- **Up to the services** the counters are left alone. -/
theorem counters_prepare (name : s.daemon.nodeName = node) (finite : at_.isFinite = true)
    (legible : LegibleInstance node p s.daemon.store.data) {host : Daemon.Host} {moment : Moment}
    {o : Outlook} (run : prepare host moment at_ s = .ok o s') :
    LegibleInstance node p s'.daemon.store.data
      ∧ (record node p s').retries = (record node p s).retries := by
  have frame := Node.Blob.frame_counters node p
  have prepares : Retains (W := W) (Since node (SameCounters node p) s.daemon.store)
      (prepare host moment at_) :=
    retains_bind (retains_settle_of frame (within_outcome_counters finite) host moment)
      fun done => retains_survey frame moment (.of_frame frame trivial at_) done
  exact kept_of_retains prepares name legible run

/-- **A decision about a service** leaves the counters that it makes of those that
are kept. -/
theorem counters_orchestrate {c : Service.Config} (name : s.daemon.nodeName = v.localNode)
    (finite : at_.isFinite = true) (bounded : s.daemon.settings.Bounded)
    (seen : ∀ i, v.instance? v.localNode p = some i →
      i.monitor = record v.localNode p s ∧ ∀ e ∈ i.resources, e.2.restarts < twoTo 32)
    (legible : LegibleInstance v.localNode p s.daemon.store.data)
    (config : v.localData?.bind (fun d => Entries.get? d.configs p) = some c) {r : Option Action}
    (run : orchestrate at_ now v o p s = .ok r s') :
    (record v.localNode p s').retries = (applyDecision (serviceSituation s v o at_ p c).decide
      (record v.localNode p s)).retries := by
  rw [orchestrate_eq config] at run
  let x := serviceSituation s v o at_ p c
  obtain ⟨changed, t, written, rest⟩ := bind_eq_ok run
  obtain ⟨steady, updated⟩ := mutate_eq_ok written
  have next := regular_decided legible bounded seen o at_ c
  have counters := Node.Blob.counters_of_update finite next updated
  have left := Node.Blob.legible_after_update finite legible next
  rw [Mutation.after_of_ok updated] at left
  obtain ⟨u, noted, daemon, -⟩ := when_emit_run (c := x.decide.state ≠ x.monitor.state) _
    (fun _ => launchWanted at_ now x.decide.action) t
  have nameU : u.daemon.nodeName = v.localNode := by
    rw [daemon, steady.name, name]
  -- an action that is refused is written down, and leaves the counters alone
  obtain ⟨-, kept⟩ := kept_of_retains (retains_launchWanted (Node.Blob.frame_counters _ p)
    (fun a => within_outcome_counters finite a false) x.decide.action) nameU
    (daemon.symm ▸ left) (noted.symm.trans rest)
  unfold record at kept
  rw [daemon] at kept
  exact kept.trans counters

/-- **A service that is decided about** keeps the counters that the decision makes
of those that are kept, whatever is done about the others. -/
theorem counters_attend (h : Sound Node.Blob.anything node s)
    (mapping : HasMapping s.daemon.store.data (Node.Blob.statuses node))
    (finite : at_.isFinite = true) (bounded : s.daemon.settings.Bounded)
    (legible : LegibleInstance node p s.daemon.store.data) {o : Outlook}
    (mem : p ∈ o.services at_ s) {x : Service.Situation}
    (decides : situation? at_ (o.view at_ s) o.node s p = some x) {launched : List Action}
    (run : attend at_ now o s = .ok (launched, []) s') :
    (record node p s').retries = (applyDecision x.decide (record node p s)).retries := by
  obtain rfl := h.daemon.name
  obtain ⟨c, config, rfl⟩ := Option.map_eq_some_iff.1 decides
  obtain ⟨r, t, u, here, before, settings, after⟩ := attend_isolates h mem run
  have same : serviceSituation t (o.view at_ s) o.node at_ p c
      = serviceSituation s (o.view at_ s) o.node at_ p c :=
    serviceSituation_congr before.running settings c
  have seen (i : Service.Instance)
      (hi : (o.view at_ s).instance? s.daemon.nodeName p = some i) :
      i.monitor = record s.daemon.nodeName p t ∧ ∀ e ∈ i.resources, e.2.restarts < twoTo 32 := by
    rw [before.record]
    exact seen_viewOf h.daemon mapping hi
  rw [after, ← before.record, ← same]
  exact counters_orchestrate (v := o.view at_ s) before.name finite (settings ▸ bounded) seen
    (before.legible legible) config here

/-! ## Rounds -/

/-- What a round makes of the counters of a service. -/
structure Tallied (node p : String) (t : Turn W) : Prop where
  found : (t.found p).retries = (record node p t.before).retries
  held : t.holds → (record node p t.after).retries = (t.found p).retries
  decided (x : Service.Situation) : t.situation? p = some x →
    (record node p t.after).retries = (applyDecision x.decide (t.found p)).retries
  /-- An instance that is seen is decided about on the counters that are kept. -/
  seen (x : Service.Situation) (i : Service.Instance) : t.situation? p = some x →
    x.instance? = some i → x.monitor = t.found p
  /-- What is counted can be counted. -/
  room (x : Service.Situation) (key : String) : t.situation? p = some x →
    x.decide.countRetry = some key → (t.found p).counter key + 1 < twoTo 32

/-- **What a round makes of the counters** of a service is what it decides. -/
theorem Legible.tallied {t : Turn W} (h : Legible node t.before) (finite : t.at_.isFinite = true)
    (bounded : t.before.daemon.settings.Bounded) (p : String) : Tallied node p t := by
  obtain ⟨o, u, launched, w, report, prepared, soundU, attended, soundW, concluded⟩ :=
    h.sound.parts
  obtain ⟨legibleU, same⟩ :=
    counters_prepare h.sound.daemon.name finite (h.instances p) prepared
  have mapping := statuses_prepare h.sound.daemon.name prepared h.statuses
  have boundedU := bounded_prepare h.sound bounded prepared
  have name := soundU.daemon.name
  have found : t.found p = record node p u := Turn.found_eq prepared name p
  have after : record node p t.after = record node p w :=
    record_conclude soundW.daemon.name concluded
  have seen (i : Service.Instance) (hi : (o.view t.at_ u).instance? node p = some i) :
      i.monitor = record node p u ∧ ∀ e ∈ i.resources, e.2.restarts < twoTo 32 := by
    rw [← name] at hi
    exact name ▸ seen_viewOf soundU.daemon mapping hi
  refine ⟨found ▸ same, fun holds => ?_, fun x decides => ?_, fun x i decides there => ?_,
    fun x key decides counts => ?_⟩
  · rw [Turn.holds_eq prepared] at holds
    unfold attend at attended
    rw [if_pos holds] at attended
    cases attended
    rw [after, found]
  all_goals
    rw [Turn.situation?_eq prepared] at decides
    split at decides
    case isFalse => cases decides
  · rw [after, found]
    exact counters_attend soundU mapping finite boundedU legibleU ‹_› decides attended
  · obtain ⟨c, -, rfl⟩ := Option.map_eq_some_iff.1 decides
    rw [found, ← (seen i (name ▸ there)).1]
    exact monitor_serviceSituation there
  · obtain ⟨c, -, rfl⟩ := Option.map_eq_some_iff.1 decides
    rw [found]
    exact room_to_count boundedU (fun i hi => seen i (name ▸ hi)) counts

end Monitor

end HaCluster
