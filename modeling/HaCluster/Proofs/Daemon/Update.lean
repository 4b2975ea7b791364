import HaCluster.Proofs.Daemon.Peers
import HaCluster.Proofs.Node.Update

/-!
# Requests for a record are exact

A request that changes the record of the node or of an instance is answered by
whether it changed anything. If it is answered, the record that is read next is the one
that was asked for, dated by the time of the request if the state is another one; the
answer is no exactly if the tree was left alone and nothing was queued; and to ask
again, at any time, changes nothing (`requests_exact`).

The record need not be there, and it may be written in any words that can be read.
-/

namespace HaCluster.Daemon

variable {α : Type} {d d' : Daemon} {at_ : Float} {changed : Bool}

/-- What is asked for with a request at some time has become true of what is read. -/
structure Exact (ask : Float → Step Refusal Bool) (read : Daemon → Option α) (meant : α)
    (changed : Bool) (d d' : Daemon) : Prop where
  /-- The record that is read is the one that was asked for. -/
  met : read d' = some meant
  /-- The answer is no exactly if nothing was changed and nothing was queued. -/
  unchanged_iff : changed = false
    ↔ d'.store.data = d.store.data ∧ d'.store.queue = d.store.queue
  /-- To ask again changes nothing, at whatever time. -/
  again : ∀ later, ask later d' = .ok false d'

/-- What is said to have changed has. -/
theorem unchanged_iff_of_run
    (told : if changed then d'.store.data ≠ d.store.data else d'.store = d.store) :
    changed = false ↔ d'.store.data = d.store.data ∧ d'.store.queue = d.store.queue := by
  cases changed with
  | false => exact iff_of_true rfl (by rw [show d'.store = d.store from told]; exact ⟨rfl, rfl⟩)
  | true => exact iff_of_false nofun fun same => told same.1

/-- A change that changes nothing leaves the daemon as it is. -/
theorem mutating_wakeIf_same {m : Mutation Bool} (made : m d.store = .ok false d.store) :
    (mutating m >>= wakeIf) d = .ok false d :=
  mutating_wakeIf made

theorem exact_setNodeMonitor (finite : at_.isFinite = true) {u : Node.Update}
    (run : setNodeMonitor u at_ d = .ok changed d') :
    Exact (setNodeMonitor u) (fun d => some d.nodeMonitor) (u.meant at_ d.nodeMonitor)
      changed d d' := by
  obtain ⟨made, name⟩ := mutating_wakeIf_eq_ok run
  have found := Node.Blob.monitor_of_update finite made
  refine ⟨?_, unchanged_iff_of_run (Node.Blob.unchanged_of_update finite made), fun later => ?_⟩
  · show some (Node.Blob.monitor d'.store d'.nodeName) = _
    rw [name, found]
    rfl
  · have again := Node.Blob.updateMonitor_again later finite made
    rw [← name] at again
    exact mutating_wakeIf_same again

theorem exact_setInstanceMonitor (finite : at_.isFinite = true) {p : String} {u : Service.Update}
    (legible : ∀ x, d.store.data.lookup (Layout.serviceMonitor d.nodeName p) = some x →
      ∃ m, Decode.ofValue Service.Monitor.decode x = .ok m)
    (run : setInstanceMonitor p u at_ d = .ok changed d') :
    Exact (setInstanceMonitor p u) (·.instanceMonitor? p)
      (u.meant at_ ((d.instanceMonitor? p).getD .blank)) changed d d' := by
  obtain ⟨made, name⟩ := mutating_wakeIf_eq_ok run
  have found := Node.Blob.instanceMonitor_of_update finite legible made
  refine ⟨?_, unchanged_iff_of_run (Node.Blob.unchanged_of_updateInstance finite made),
    fun later => ?_⟩
  · show Node.Blob.instanceMonitor? d'.store d'.nodeName p = _
    rw [name, found]
    rfl
  · have again := Node.Blob.updateInstanceMonitor_again later finite made
    rw [← name] at again
    exact mutating_wakeIf_same again

/-- **Requests for a record are exact**, of the node and of every instance whose record
is not there or can be read. -/
theorem requests_exact (d : Daemon) (at_ : Float) (finite : at_.isFinite = true) :
    (∀ u changed d', setNodeMonitor u at_ d = .ok changed d' →
      Exact (setNodeMonitor u) (fun d => some d.nodeMonitor) (u.meant at_ d.nodeMonitor)
        changed d d')
    ∧ ∀ p u changed d',
      (∀ x, d.store.data.lookup (Layout.serviceMonitor d.nodeName p) = some x →
        ∃ m, Decode.ofValue Service.Monitor.decode x = .ok m) →
      setInstanceMonitor p u at_ d = .ok changed d' →
      Exact (setInstanceMonitor p u) (·.instanceMonitor? p)
        (u.meant at_ ((d.instanceMonitor? p).getD .blank)) changed d d' :=
  ⟨fun _ _ _ run => exact_setNodeMonitor finite run,
    fun _ _ _ _ legible run => exact_setInstanceMonitor finite legible run⟩

/-- A node that goes idle, where a service that it knows nothing of is asked to start
then. -/
theorem requests_exact_alone : ∃ d d',
    setNodeMonitor (Node.Update.enter .idle) 1 alone = .ok true d
      ∧ d.nodeMonitor = ⟨.idle, 1, none, none⟩
      ∧ setInstanceMonitor "svc" { Service.Update.none with globalExpect := .set .started } 2 d
        = .ok true d'
      ∧ d'.instanceMonitor? "svc" = some ⟨.idle, 0, none, some .started, []⟩
      ∧ setInstanceMonitor "svc" { Service.Update.none with globalExpect := .set .started } 3 d'
        = .ok false d' := by
  obtain ⟨d, run, absent, d', run'⟩ :
      ∃ d, setNodeMonitor (Node.Update.enter .idle) 1 alone = .ok true d
        ∧ d.store.data.lookup (Layout.serviceMonitor d.nodeName "svc") = none
        ∧ ∃ d', setInstanceMonitor "svc"
          { Service.Update.none with globalExpect := .set .started } 2 d = .ok true d' :=
    ⟨_, rfl, rfl, _, rfl⟩
  have node := (requests_exact alone 1 (by decide)).1 _ _ _ run
  have instance_ := (requests_exact d 2 (by decide)).2 "svc" _ _ _
    (fun x there => nomatch absent.symm.trans there) run'
  have none : d.instanceMonitor? "svc" = none := by
    unfold instanceMonitor? Node.Blob.instanceMonitor? Store.get
    rw [absent]
    rfl
  refine ⟨d, d', run, Option.some.inj node.met, run', ?_, instance_.again 3⟩
  rw [instance_.met, none]
  rfl

end HaCluster.Daemon
