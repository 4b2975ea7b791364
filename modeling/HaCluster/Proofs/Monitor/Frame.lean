import HaCluster.Proofs.Daemon.Peers
import HaCluster.Proofs.Monitor.Retain

/-!
# What a round edits

A round edits the tree in the same places as requests do: the keys of the own
blob, the configurations and status documents, the records of the services it is
about, and the copies of the peers it drops. So a relation between trees that is
kept by such edits is kept by every stage of a round, whether it succeeds or not,
and by the round (`retains_round`).

A stage that is about some services only keeps the relations that the edits of
the other records need not.
-/

namespace HaCluster.Monitor

open Mutation Store
open Daemon (Since concerns_since since_mutate)

variable {W : Type} {α : Type} {node : String} {self : Prop} {own peers : String → Prop}
  {T : Value → Value → Prop} {s₀ : Store}
  (h : Frame (Node.Blob.Edits node self own peers) (Node.Blob.Makes node) T)

/-! ## The stages -/

/-- The rest of a round after the services, whatever relation its edits keep. -/
theorem retains_conclude_of {edits : Path → Prop} (h : Frame edits (Node.Blob.Makes node) T)
    (stats : edits ((Layout.node node).key "stats"))
    (updated : edits ((Layout.node node).key "updated"))
    (copies : ∀ n, n ≠ node → ∀ r, edits (Layout.node n ++ r)) (at_ : Float) (o : Outlook)
    (done : List Action × List (String × DataError)) :
    Retains (Since node T s₀) (conclude at_ o done : Step W Report) := by
  rw [conclude_eq]
  refine retains_bind (concerns_since.tidy
    (fun peer ne => Daemon.since_purge h (copies peer ne))
    (fun n => since_mutate h (Node.Blob.framed_stamp h stats updated n at_)) o) fun _ => ?_
  exact retains_get_bind fun s hs => Daemon.since_nextPatches h at_ hs

include h

theorem retains_mutate {m : Mutation α} (hm : Within (Framed T) m) :
    Retains (Since node T s₀) (mutate m : Step W α) :=
  retains_onDaemon (since_mutate h hm)

theorem retains_dropOrphans {v : View} (hv : v.localNode = node)
    (orphaned : ∀ s : Monitor W, ∀ q ∈ orphans s v, own q) :
    Retains (Since node T s₀) (dropOrphans v : Step W Unit) :=
  Daemon.Concerns.dropOrphans hv fun s q hq =>
    since_mutate h (Node.Blob.framed_dropInstance h (.instance (orphaned s q hq)))

/-- The rest of a round after the services. -/
theorem retains_conclude (others : ∀ n, n ≠ node → peers n) (at_ : Float) (o : Outlook)
    (done : List Action × List (String × DataError)) :
    Retains (Since node T s₀) (conclude at_ o done : Step W Report) :=
  retains_conclude_of h (.key (by decide) (by decide)) (.key (by decide) (by decide))
    (fun n ne r => .peer (others n ne) r) at_ o done

variable [World W]

omit h in
theorem retains_reload (host : Daemon.Host) :
    Retains (Since node T s₀) (reload host : Step W Unit) :=
  concerns_since.reload host

/-- The end of an action is written down in the record of its service. -/
theorem retains_complete_of {at_ : Float} (now : Float) {a : Action} (code : Option Int)
    (written : Within (Framed T)
      (Node.Blob.updateInstanceMonitor node a.path at_ (outcome a (code = some 0)))) :
    Retains (Since node T s₀) (complete at_ now a code : Step W Unit) :=
  concerns_since.complete (since_mutate h written)

theorem retains_complete (at_ now : Float) {a : Action} (ha : own a.path) (code : Option Int) :
    Retains (Since node T s₀) (complete at_ now a code : Step W Unit) :=
  retains_complete_of h now code (Node.Blob.framed_updateInstanceMonitor h (.record ha) at_ _)

theorem retains_launch_of {at_ : Float} (now : Float) {a : Action}
    (written : Within (Framed T)
      (Node.Blob.updateInstanceMonitor node a.path at_ (outcome a false))) :
    Retains (Since node T s₀) (launch at_ now a : Step W Bool) :=
  concerns_since.launch (since_mutate h written)

/-- A service is orchestrated in its own record alone. -/
theorem retains_orchestrate (at_ now : Float) {v : View} (hv : v.localNode = node)
    (o : NodeOutcome) {q : String} (hq : own q) :
    Retains (Since node T s₀) (orchestrate at_ now v o q : Step W (Option Action)) :=
  concerns_since.orchestrate hv o
    (fun _ => since_mutate h (Node.Blob.framed_updateInstanceMonitor h (.record hq) at_ _))
    fun _ _ => since_mutate h (Node.Blob.framed_updateInstanceMonitor h (.record hq) at_ _)

/-! ## The parts of a round -/

theorem retains_settle_of {at_ : Float}
    (written : ∀ (a : Action) (success : Bool), Within (Framed T)
      (Node.Blob.updateInstanceMonitor node a.path at_ (outcome a success)))
    (host : Daemon.Host) (now : Moment) :
    Retains (Since node T s₀) (settle host now at_ : Step W _) :=
  concerns_since.settle (fun a success => since_mutate h (written a success)) host now

theorem retains_settle (every : ∀ q, own q) (host : Daemon.Host) (now : Moment) (at_ : Float) :
    Retains (Since node T s₀) (settle host now at_ : Step W _) :=
  retains_settle_of h (fun a _ => Node.Blob.framed_updateInstanceMonitor h (.record (every a.path)) at_ _)
    host now

theorem retains_look (now : Moment) :
    Retains (Since node T s₀) (look now : Step W (List String × List String)) :=
  fun _ hs => concerns_since.look_after hs fun r _ new _ =>
    since_mutate h (Node.Blob.framed_replaceStatus h r.service new)

/-- The rest of a round before the services: statuses are taken in, and the node
is decided about. -/
theorem retains_survey (now : Moment) {at_ : Float} (notes : Node.Blob.Notes node at_ T)
    (completed : List (Action × Int)) :
    Retains (Since node T s₀) (survey now at_ completed : Step W Outlook) := by
  rw [survey_eq]
  refine retains_bind (retains_look h now) fun _ => retains_get fun _ =>
    retains_bind ?_ fun _ => retains_pure _
  exact concerns_since.evaluateNode
    (fun b => since_mutate h
      (Node.Blob.framed_setFrozen h (.key (by decide) (by decide)) b at_))
    fun d => since_mutate h (notes (noted d) fun _ => rfl)

theorem retains_prepare {at_ : Float} (notes : Node.Blob.Notes node at_ T)
    (every : ∀ q, own q) (host : Daemon.Host) (now : Moment) :
    Retains (Since node T s₀) (prepare host now at_ : Step W Outlook) :=
  retains_bind (retains_settle h every host now at_) fun completed =>
    retains_survey h now notes completed

theorem retains_attend (every : ∀ q, own q) (at_ now : Float) (o : Outlook) :
    Retains (Since node T s₀) (attend at_ now o : Step W _) := by
  have written (q : String) (edit : Service.Monitor → Service.Monitor) :
      Daemon.Preserves (Since node T s₀)
        (Daemon.mutate (Node.Blob.updateInstanceMonitor node q at_ edit)) :=
    since_mutate h (Node.Blob.framed_updateInstanceMonitor h (.record (every q)) at_ edit)
  exact fun s hs => concerns_since.attend (fun a => written a.path _) (fun q _ => written q _)
    (fun _ q _ => since_mutate h (Node.Blob.framed_dropInstance h (.instance (every q)))) hs

/-- **A round keeps every relation** that the edits of a node keep. -/
theorem retains_round {at_ : Float} (notes : Node.Blob.Notes node at_ T) (every : ∀ q, own q)
    (others : ∀ n, n ≠ node → peers n) (host : Daemon.Host) (now : Moment) :
    Retains (Since node T s₀) (round host now at_ : Step W Report) := by
  rw [round_eq]
  exact retains_bind (retains_prepare h notes every host now) fun o =>
    retains_bind (retains_attend h every at_ now.wall o) fun done =>
      retains_conclude h others at_ o done

omit h in
/-- A round is a step. -/
theorem Turn.step_after (t : Turn W) : Step.after (round t.host t.now t.at_) t.before = t.after := by
  unfold Step.after Turn.after
  cases round t.host t.now t.at_ t.before <;> rfl

omit h in
/-- **Rounds leave a daemon wired up**, as requests do. -/
theorem wired_after (t : Turn W) (h : t.before.daemon.Wired) : t.after.daemon.Wired := by
  have frame := Node.Blob.frame_nodes t.before.daemon.nodeName
  have since := retains_round frame (.of_frame frame trivial t.at_) (fun _ => trivial)
    (fun _ _ => trivial) t.host t.now t.before (Daemon.since_refl frame rfl)
  rw [t.step_after] at since
  refine ⟨?_, since.store.data h.nodes⟩
  rw [since.store.journal, since.name]
  exact h.journal

end HaCluster.Monitor
