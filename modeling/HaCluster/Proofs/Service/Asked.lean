import HaCluster.Service.Decision
import Mathlib.Tactic.Simps.Basic

/-!
# What a decision asks of its view

The rules about an instance read nothing off their view but the answers to a few
questions: about the service itself on each node, about the services that name
it as a parent, about its own parents, and about who may run it. Two views that
give the same answers (`AskedAlike`) lead to the same decision, its reason
included (`decide_congr`). So what has no influence on the answers has none on
the decision.
-/

namespace HaCluster.Service.Situation

open View

/-- The same with another view. -/
@[simps] def on (s : Situation) (v : View) : Situation := { s with view := v }

/-- Two views give the same answers to what the decision about an instance asks. -/
structure AskedAlike (s : Situation) (v w : View) : Prop where
  localNode : v.localNode = w.localNode
  «instance» : v.instance? v.localNode s.path = w.instance? w.localNode s.path
  runningOn : v.runningOn s.path = w.runningOn s.path
  upCount : v.upCount s.path = w.upCount s.path
  scopeInstances : v.scopeInstances s.path = w.scopeInstances s.path
  children : v.children s.path = w.children s.path
  childHere : ∀ c ∈ w.children s.path, v.avail v.localNode c = w.avail w.localNode c
  childAnywhere : ∀ c ∈ w.children s.path, v.runningOn c = w.runningOn c
  parents : v.parentsState s.config.parents = w.parentsState s.config.parents
  eligible : ∀ retrying, (s.on v).isEligible retrying = (s.on w).isEligible retrying

namespace AskedAlike

variable {s : Situation} {v w : View} (h : AskedAlike s v w)

include h

theorem instance?_on : (s.on v).instance? = (s.on w).instance? := h.instance

theorem avail_on : (s.on v).avail = (s.on w).avail := by
  rw [avail, avail, h.instance?_on]

theorem instanceFrozen_on : (s.on v).instanceFrozen = (s.on w).instanceFrozen := by
  rw [instanceFrozen, instanceFrozen, h.instance?_on]

/-- The same children run here. -/
theorem childrenHere_on :
    (v.children s.path).filter (fun c => (v.avail v.localNode c).isRunning)
      = (w.children s.path).filter (fun c => (w.avail w.localNode c).isRunning) := by
  rw [h.children]
  exact List.filter_congr fun c hc => congrArg Avail.isRunning (h.childHere c hc)

/-- The same children run anywhere. -/
theorem childrenAnywhere_on :
    (v.children s.path).filter (fun c => !(v.runningOn c).isEmpty)
      = (w.children s.path).filter (fun c => !(w.runningOn c).isEmpty) := by
  rw [h.children]
  exact List.filter_congr fun c hc => by rw [h.childAnywhere c hc]

theorem stopForNode_on (reason : String) :
    (s.on v).stopForNode reason = (s.on w).stopForNode reason := by
  simp only [stopForNode, on_view, on_path, on_monitor, h.avail_on, h.childrenHere_on]

theorem stop_on : (s.on v).stop = (s.on w).stop := by
  simp only [stop, on_view, on_path, on_monitor, h.avail_on, h.childrenAnywhere_on, h.runningOn]

theorem freeze_on : (s.on v).freeze = (s.on w).freeze := by
  simp only [freeze, on_view, on_path, on_monitor, h.instanceFrozen_on, h.scopeInstances]

theorem thaw_on : (s.on v).thaw = (s.on w).thaw := by
  simp only [thaw, on_view, on_path, on_monitor, h.instanceFrozen_on, h.scopeInstances]

theorem provision_on : (s.on v).provision = (s.on w).provision := by
  simp only [provision, on_view, on_path, on_monitor, h.instance?_on, h.scopeInstances]

theorem startSatisfied_on : (s.on v).startSatisfied = (s.on w).startSatisfied := by
  simp only [startSatisfied, on_view, on_path, on_config, h.upCount]

theorem running_on (i : Instance) (startedHere : Bool) :
    (s.on v).running i startedHere = (s.on w).running i startedHere := by
  simp only [running, on_path, on_monitor, h.startSatisfied_on]

theorem elsewhere_on : (s.on v).elsewhere = (s.on w).elsewhere := by
  simp only [elsewhere, on_view, on_path, h.runningOn, h.localNode]

theorem heldBy_on (retrying : Bool) : (s.on v).heldBy retrying = (s.on w).heldBy retrying := by
  simp only [heldBy, globalStart, on_view, on_path, on_monitor, on_config, h.parents,
    h.startSatisfied_on, h.elsewhere_on, h.eligible, h.localNode]

theorem proceed_on (retrying : Bool) : (s.on v).proceed retrying = (s.on w).proceed retrying := by
  simp only [proceed, waited, on_path, on_monitor, on_now, on_readyPeriod, h.heldBy_on]

theorem retry_on : (s.on v).retry = (s.on w).retry := by
  simp only [retry, startRetries, waited, on_monitor, on_now, on_readyPeriod, on_maxStartRetries,
    h.proceed_on]

theorem start_on : (s.on v).start = (s.on w).start := by
  simp only [start, globalStart, Situation.startedHere, on_monitor, on_config, h.instance?_on,
    h.running_on, h.retry_on, h.proceed_on]

theorem orchestrate_on : (s.on v).orchestrate = (s.on w).orchestrate := by
  simp only [orchestrate, unlessFrozen, on_monitor, on_nodeFrozen, h.freeze_on, h.thaw_on,
    h.instanceFrozen_on, h.stop_on, h.provision_on, h.start_on]

/-- **The same answers lead to the same decision.** -/
theorem decide_congr : (s.on v).decide = (s.on w).decide := by
  simp only [decide, on_monitor, on_config, on_inFlight, on_nodeState, h.stopForNode_on,
    h.orchestrate_on]

end AskedAlike

end HaCluster.Service.Situation
