import HaCluster.Proofs.Daemon.Frame
import HaCluster.Proofs.Monitor.Course

/-!
# What the stages of a round keep

Every stage of a round does to its daemon what some mutations of the blob do, and
drops copies of peers. So a property that concerns the store and the publisher
alone is kept by a stage, whether it succeeds or not, if it is kept by the
mutations that the stage is made of. One lemma for each stage says which those
are (`Concerns.settle`, `Concerns.look_after`, `Concerns.evaluateNode`,
`Concerns.attend`, `Concerns.tidy`).
-/

namespace HaCluster

/-- The document that the monitor takes in of what was read: it is dated if it has
no date. -/
def Status.Refreshed.document? (r : Status.Refreshed) : Option (Entries Value) :=
  match r.reading with
  | .ok (some (.map doc)) =>
    some (if Entries.contains doc "updated" then doc
      else Entries.insert doc "updated" (.float r.readAt))
  | _ => none

namespace Monitor

open Mutation Store

variable {W : Type} {α β : Type} {P : Daemon → Prop}

/-! ## Steps that keep a property of the daemon -/

/-- The monitor that a step leaves, whether it failed or not. -/
def Step.after (m : Step W α) (s : Monitor W) : Monitor W :=
  match m s with
  | .ok _ s' => s'
  | .error _ s' => s'

theorem Step.after_of_ok {m : Step W α} {s s' : Monitor W} {a : α} (h : m s = .ok a s') :
    Step.after m s = s' := by
  unfold Step.after
  rw [h]

/-- Two steps leave what the second one makes of what the first one leaves, or the
first one fails. -/
theorem Step.after_bind (m : Step W α) (f : α → Step W β) (s : Monitor W) :
    Step.after (m >>= f) s = Step.after m s
      ∨ ∃ a, Step.after (m >>= f) s = Step.after (f a) (Step.after m s) := by
  cases h : m s with
  | error e s' =>
    have run : (m >>= f) s = .error e s' := bind_error h
    unfold Step.after
    rw [run, h]
    exact .inl rfl
  | ok a s' =>
    refine .inr ⟨a, ?_⟩
    rw [Step.after_of_ok h]
    unfold Step.after
    rw [bind_ok h]

/-- A step keeps a property of the daemon, whether it fails or not. -/
def Retains (P : Daemon → Prop) (m : Step W α) : Prop :=
  ∀ s, P s.daemon → P (Step.after m s).daemon

theorem Retains.of_ok {m : Step W α} {s s' : Monitor W} {a : α} (h : Retains P m)
    (run : m s = .ok a s') (before : P s.daemon) : P s'.daemon := by
  rw [← Step.after_of_ok run]
  exact h s before

theorem retains_pure (a : α) : Retains P (pure a : Step W α) := fun _ h => h

theorem retains_bind {m : Step W α} {f : α → Step W β} (hm : Retains P m)
    (hf : ∀ a, Retains P (f a)) : Retains P (m >>= f) := by
  intro s hs
  have first := hm s hs
  rcases Step.after_bind m f s with failed | ⟨a, both⟩
  · rw [failed]
    exact first
  · rw [both]
    exact hf a _ first

/-- A mutation that succeeds changes the store alone. -/
theorem exists_store_of_mutate {m : Mutation α} {a : α} {s s' : Monitor W}
    (run : mutate m s = .ok a s') :
    ∃ store, m s.daemon.store = .ok a store
      ∧ s' = { s with daemon := { s.daemon with store := store } } := by
  unfold mutate onDaemon Daemon.mutate at run
  cases result : m s.daemon.store with
  | error e store =>
    rw [result] at run
    cases run
  | ok x store =>
    rw [result] at run
    cases run
    exact ⟨store, rfl, rfl⟩

/-- A step that reads the monitor, and then acts on what it has read. -/
theorem retains_get_bind {f : Monitor W → Step W β}
    (hf : ∀ s, P s.daemon → P (Step.after (f s) s).daemon) : Retains P (get >>= f) := hf

/-- A step that keeps the property whatever it has read. -/
theorem retains_get {f : Monitor W → Step W β} (hf : ∀ s, Retains P (f s)) :
    Retains P (get >>= f) :=
  fun s hs => hf s s hs

theorem retains_forM {f : α → Step W PUnit} {l : List α} (hf : ∀ a ∈ l, Retains P (f a)) :
    Retains P (l.forM f) := by
  induction l with
  | nil => exact retains_pure _
  | cons a l ih =>
    exact retains_bind (hf a List.mem_cons_self)
      (fun _ => ih (fun b hb => hf b (List.mem_cons_of_mem a hb)))

theorem retains_modify {f : Monitor W → Monitor W} (h : ∀ s, P s.daemon → P (f s).daemon) :
    Retains P (modify f : Step W PUnit) := h

theorem retains_set {s : Monitor W} (h : P s.daemon) : Retains P (set s : Step W PUnit) :=
  fun _ _ => h

theorem retains_emit (e : Event) : Retains P (emit e : Step W Unit) := fun _ h => h

/-- A step that notes an event under a condition first. -/
theorem retains_when_emit {c : Prop} [Decidable c] (e : Event) {f : PUnit → Step W β}
    (hf : ∀ u, Retains P (f u)) : Retains P (if c then emit e >>= f else f ⟨⟩) := by
  split
  · exact retains_bind (retains_emit e) hf
  · exact hf _

theorem retains_attempt {m : Step W α} (h : Retains P m) : Retains P (attempt m) := by
  intro s hs
  have step := h s hs
  unfold Step.after at step ⊢
  unfold attempt
  cases result : m s <;> rw [result] at step <;> exact step

theorem retains_onDaemon {m : Daemon.Step DataError α} (h : Daemon.Preserves P m) :
    Retains P (onDaemon m : Step W α) := by
  intro s hs
  have step := h s.daemon hs
  unfold Daemon.Step.after at step
  unfold Step.after onDaemon
  cases result : m s.daemon <;> rw [result] at step <;> exact step

theorem retains_submit [World W] (now : Float) (q : String) :
    Retains P (submit now q : Step W Unit) := fun _ hs => hs

/-! ## The stages -/

theorem ingestOne_eq (r : Status.Refreshed) :
    (ingestOne r : Step W Unit) = match r.document? with
      | some new => onDaemon (Daemon.postStatus r.service (.map new))
      | none => pure () := by
  obtain ⟨service, readAt, reading⟩ := r
  unfold ingestOne Status.Refreshed.document?
  rcases reading with e | (_ | v)
  · rfl
  · rfl
  · cases v <;> rfl

/-- The record of the node after a decision. -/
def noted (d : Node.Decision) (m : Node.Monitor) : Node.Monitor :=
  { m with
    state := d.state.getD m.state
    globalExpect := if d.clearGlobalExpect then none else m.globalExpect }

/-- The decision about the node, in a monitor and on its picture of the cluster. -/
def nodeSituationOn [World W] (s : Monitor W) (v : View) (at_ : Float) : Node.Situation :=
  nodeSituation s.daemon v
    ((s.daemon.settings.freezeFlag.map (World.fileExists s.world)).getD false) at_

/-- **What a decision does to the retries** is to count one and to forget one. -/
theorem retries_after_decision {C : Entries Nat → Prop} {d : Service.Decision}
    {m : Service.Monitor} (h : C m.retries)
    (count : ∀ key, d.countRetry = some key →
      C (Entries.insert m.retries key ((Entries.get? m.retries key).getD 0 + 1)))
    (forget : ∀ l key, C l → C (Entries.erase l key)) : C (applyDecision d m).retries := by
  unfold applyDecision
  cases counts : d.countRetry <;> cases d.dropRetries
  · exact h
  · exact forget _ _ h
  · exact count _ counts
  · exact forget _ _ (count _ counts)

end Monitor

open Monitor
open Daemon (Preserves)

namespace Daemon.Concerns

variable {W : Type} {node : String} {P : Daemon → Prop} (h : Concerns node P) {at_ now : Float}
  {v : View}

include h

theorem ingestOne {r : Status.Refreshed}
    (taken : ∀ new, r.document? = some new →
      Preserves P (Daemon.mutate (Node.Blob.replaceStatus node r.service new))) :
    Retains P (Monitor.ingestOne r : Monitor.Step W Unit) := by
  rw [ingestOne_eq]
  cases document : r.document? with
  | none => exact retains_pure ()
  | some new =>
    refine retains_onDaemon (h.postStatus fun doc same => ?_)
    cases same
    exact taken new document

omit h in
theorem dropOrphans (hv : v.localNode = node)
    (dropped : ∀ s : Monitor W, ∀ q ∈ orphans s v,
      Preserves P (Daemon.mutate (Node.Blob.dropInstance node q))) :
    Retains P (Monitor.dropOrphans v : Monitor.Step W Unit) :=
  retains_get fun s => retains_forM fun q hq => retains_onDaemon (hv ▸ dropped s q hq)

theorem purgeDownPeers (forgotten : ∀ peer, peer ≠ node → Preserves P (Daemon.purge peer))
    (live : List String) :
    Retains P (Monitor.purgeDownPeers live at_ : Monitor.Step W (List String)) := by
  refine retains_get_bind fun s hs => ?_
  refine retains_bind (retains_forM fun peer hpeer => retains_onDaemon (forgotten peer ?_))
    (fun _ => retains_pure _) s hs
  obtain ⟨e, he, rfl⟩ := List.mem_map.1 hpeer
  have other := (List.mem_filter.1 he).2
  rw [h.name hs] at other
  simp only [Bool.and_eq_true, decide_eq_true_eq] at other
  exact other.1.1

/-- The rest of a round after the services, up to the patches. -/
theorem tidy (forgotten : ∀ peer, peer ≠ node → Preserves P (Daemon.purge peer))
    (stamped : ∀ n, Preserves P (Daemon.mutate (Node.Blob.stamp node n at_))) (o : Outlook) :
    Retains P (Monitor.tidy at_ o : Monitor.Step W (List String × Bool)) := by
  refine retains_bind (h.purgeDownPeers forgotten o.live) fun _ => ?_
  refine retains_get_bind fun s hs => ?_
  dsimp only
  rw [h.name hs]
  refine retains_get_bind (fun t ht => ?_) s hs
  exact retains_bind (retains_onDaemon (stamped _))
    (fun _ => retains_get fun _ => retains_get fun _ => retains_pure _) t ht

variable [World W]

/-- The statuses are taken in, those that a monitor has to take in. -/
theorem ingest_after {s : Monitor W} (hs : P s.daemon)
    (taken : ∀ r ∈ readings now s, ∀ new, r.document? = some new →
      Preserves P (Daemon.mutate (Node.Blob.replaceStatus node r.service new))) :
    P (Monitor.Step.after (Monitor.ingest now) s).daemon := by
  have submits : Monitor.ingest now s = (readings now s).forM Monitor.ingestOne
      { s with pool := (submitted now (configured s) s).drain.2 } :=
    bind_ok (forM_submit now (configured s) s)
  unfold Monitor.Step.after
  rw [submits]
  exact retains_forM (fun r hr => h.ingestOne (taken r hr)) _ hs

theorem reload (host : Daemon.Host) : Retains P (Monitor.reload host : Monitor.Step W Unit) := by
  refine retains_modify fun s hs => ?_
  have loaded := h.reloadSettings (loadSettings host s.world) s.daemon hs
  unfold Daemon.Step.after at loaded
  cases result : Daemon.reloadSettings (loadSettings host s.world) s.daemon <;>
    rw [result] at loaded <;> exact loaded

/-- The statuses are taken in, and it is found out who is there. -/
theorem look_after {now : Moment} {s : Monitor W} (hs : P s.daemon)
    (taken : ∀ r ∈ readings now.wall s, ∀ new, r.document? = some new →
      Preserves P (Daemon.mutate (Node.Blob.replaceStatus node r.service new))) :
    P (Monitor.Step.after (Monitor.look now) s).daemon := by
  have ingested := h.ingest_after hs taken
  rcases Monitor.Step.after_bind (Monitor.ingest now.wall) _ s with failed | ⟨u, both⟩
  · exact failed ▸ ingested
  · rw [show Monitor.look now = Monitor.ingest now.wall >>= _ from rfl, both]
    exact h.congr ingested rfl rfl rfl

theorem setNodeFrozen {frozen : Bool}
    (written : Preserves P (Daemon.mutate (Node.Blob.setFrozen node frozen at_))) :
    Retains P (Monitor.setNodeFrozen frozen at_ : Monitor.Step W Unit) := by
  refine retains_bind (retains_modify fun s hs => ?_) fun _ =>
    retains_onDaemon (Daemon.preserves_get_bind fun d hd => ?_)
  · split <;> exact hs
  · rw [h.name hd]
    exact written d hd

theorem evaluateNode
    (frozen : ∀ b, Preserves P (Daemon.mutate (Node.Blob.setFrozen node b at_)))
    (decided : ∀ d, Preserves P (Daemon.mutate (Node.Blob.updateMonitor node at_ (noted d)))) :
    Retains P (Monitor.evaluateNode at_ v : Monitor.Step W NodeOutcome) := by
  refine retains_get_bind fun s hs => ?_
  dsimp only
  rw [h.name hs]
  have record {f : PUnit → Monitor.Step W NodeOutcome} (d : Node.Decision) {c : Prop}
      [Decidable c] {e : Event} (hf : ∀ u, Retains P (f u)) :
      Retains P (Monitor.mutate (Node.Blob.updateMonitor node at_ (noted d)) >>= fun _ =>
        if c then emit e >>= f else f ⟨⟩) :=
    retains_bind (retains_onDaemon (decided d)) fun _ => retains_when_emit e hf
  split
  · exact retains_bind (h.setNodeFrozen (frozen _))
      (fun _ => record _ fun _ => retains_pure _) s hs
  · exact record _ (fun _ => retains_pure _) s hs

/-- The end of an action is written down in the record of its service. -/
theorem complete {a : Action} {code : Option Int}
    (written : Preserves P (Daemon.mutate
      (Node.Blob.updateInstanceMonitor node a.path at_ (outcome a (code = some 0))))) :
    Retains P (Monitor.complete at_ now a code : Monitor.Step W Unit) := by
  refine retains_get_bind fun s hs => ?_
  dsimp only
  rw [h.name hs]
  refine retains_get_bind (fun t ht => ?_) s hs
  refine retains_bind (retains_onDaemon written)
    (fun _ => retains_bind (retains_submit now a.path) fun _ => ?_) t ht
  exact retains_bind (retains_emit _) fun _ => retains_when_emit _ fun _ => retains_pure _

theorem launch {a : Action}
    (written : Preserves P (Daemon.mutate
      (Node.Blob.updateInstanceMonitor node a.path at_ (outcome a false)))) :
    Retains P (Monitor.launch at_ now a : Monitor.Step W Bool) := by
  refine retains_get_bind fun s hs => ?_
  dsimp only
  refine retains_bind (retains_set (s := { s with world := (World.launch a s.world).2 }) hs)
    (fun _ => ?_) s hs
  split
  · exact retains_bind (retains_emit _) fun _ =>
      retains_bind (retains_modify fun _ ht => ht) fun _ => retains_pure _
  · exact retains_bind (h.complete written) fun _ => retains_pure _

/-- A service is orchestrated in its own record alone. -/
theorem orchestrate (hv : v.localNode = node) (o : NodeOutcome) {q : String}
    (decided : ∀ d, Preserves P
      (Daemon.mutate (Node.Blob.updateInstanceMonitor node q at_ (applyDecision d))))
    (refused : ∀ a : Action, a.path = q → Preserves P
      (Daemon.mutate (Node.Blob.updateInstanceMonitor node q at_ (outcome a false)))) :
    Retains P (Monitor.orchestrate at_ now v o q : Monitor.Step W (Option Action)) := by
  unfold Monitor.orchestrate
  split
  · exact retains_pure _
  · rename_i config _
    refine retains_get fun s => ?_
    refine retains_bind (retains_onDaemon (hv ▸ decided _)) fun _ => ?_
    refine retains_when_emit _ fun _ => ?_
    split
    · rename_i a action _
      have path : a.path = q := Service.Situation.about_decide a action
      exact retains_bind (h.launch (path.symm ▸ refused a path)) fun b => by
        cases b <;> exact retains_pure _
    · exact retains_pure _

omit h in
theorem orchestrateAll (o : NodeOutcome) {services : List String}
    (each : ∀ q ∈ services,
      Retains P (Monitor.orchestrate at_ now v o q : Monitor.Step W (Option Action))) :
    Retains P (Monitor.orchestrateAll at_ now v o services : Monitor.Step W _) := by
  induction services with
  | nil => exact retains_pure _
  | cons q services ih =>
    unfold Monitor.orchestrateAll
    refine retains_bind (retains_attempt (each q List.mem_cons_self)) fun r => ?_
    refine retains_bind (ih fun p hp => each p (List.mem_cons_of_mem q hp)) fun done => ?_
    obtain ⟨launched, failed⟩ := done
    cases r with
    | error e => exact retains_pure _
    | ok r => cases r <;> exact retains_pure _

theorem completeAll
    (ended : ∀ (a : Action) (success : Bool), Preserves P
      (Daemon.mutate (Node.Blob.updateInstanceMonitor node a.path at_ (outcome a success))))
    (codes : List (String × Int)) :
    Retains P (Monitor.completeAll at_ now codes : Monitor.Step W _) := by
  induction codes with
  | nil => exact retains_pure _
  | cons e codes ih =>
    obtain ⟨service, code⟩ := e
    unfold Monitor.completeAll
    refine retains_get fun s => ?_
    split
    · exact ih
    · exact retains_bind (retains_modify fun _ ht => ht) fun _ =>
        retains_bind (h.complete (ended _ _)) fun _ => retains_bind ih fun _ => retains_pure _

/-- The settings are read again, and actions that ended are written down. -/
theorem settle
    (ended : ∀ (a : Action) (success : Bool), Preserves P
      (Daemon.mutate (Node.Blob.updateInstanceMonitor node a.path at_ (outcome a success))))
    (host : Daemon.Host) (now : Moment) :
    Retains P (Monitor.settle host now at_ : Monitor.Step W _) := by
  refine retains_bind (h.reload host) fun _ => retains_get_bind fun s hs => ?_
  exact retains_bind (retains_set (s := { s with world := (pollAll s.running s.world).2 }) hs)
    (fun _ => h.completeAll ended _) s hs

/-- The services are decided about, unless the node holds them, and what is left of
services that are not configured any more is dropped. -/
theorem attend
    (ended : ∀ a : Action, Preserves P
      (Daemon.mutate (Node.Blob.updateInstanceMonitor node a.path at_ (outcome a false))))
    (decided : ∀ q d, Preserves P
      (Daemon.mutate (Node.Blob.updateInstanceMonitor node q at_ (applyDecision d))))
    {s : Monitor W} {o : Outlook}
    (dropped : ∀ t : Monitor W, ∀ q ∈ orphans t (o.view at_ s),
      Preserves P (Daemon.mutate (Node.Blob.dropInstance node q))) (hs : P s.daemon) :
    P (Monitor.Step.after (Monitor.attend at_ now o) s).daemon := by
  unfold Monitor.attend
  split
  · exact hs
  · have hv : (o.view at_ s).localNode = node := h.name hs
    exact retains_bind (orchestrateAll o.node fun q _ =>
        h.orchestrate hv o.node (decided q) fun a path => path ▸ ended a)
      (fun r => retains_bind (dropOrphans hv dropped) fun _ => retains_pure r) s hs

end Daemon.Concerns

end HaCluster
