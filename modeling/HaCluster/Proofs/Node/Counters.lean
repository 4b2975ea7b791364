import HaCluster.Proofs.Node.Legible

/-!
# The retry counters in the tree

The counters are a part of the record of an instance. A change of the record that
leaves them alone leaves them alone in the tree, whether it can be written or not,
as long as the record can be read before and after (`within_update_counters`); and
so does everything that a node edits elsewhere (`frame_counters`).
-/

namespace HaCluster

open Value Store Mutation

namespace Node.Blob

variable {node p : String} {s : Store} {at_ : Float}

/-- The retry counters of a service that a tree holds. -/
def countersIn (node p : String) (v : Value) : Entries Nat :=
  (((v.lookup (Layout.serviceMonitor node p)).bind
    fun x => (Decode.ofValue Service.Monitor.decode x).toOption).getD
      Service.Monitor.blank).retries

theorem countersIn_data (s : Store) (node p : String) :
    countersIn node p s.data = (instanceMonitor s node p).retries := by
  rw [countersIn, instanceMonitor_eq]

/-- A record that can be read stays one, with the counters that it has. -/
def SameCounters (node p : String) (v w : Value) : Prop :=
  LegibleInstance node p v → LegibleInstance node p w ∧ countersIn node p w = countersIn node p v

/-- **What is edited elsewhere** leaves the counters alone. -/
theorem frame_counters (node p : String) :
    Frame (Edits node True (· ≠ p) (· ≠ node)) (Makes node) (SameCounters node p) := by
  have record := frame_record node p
  have same {v w : Value}
      (h : w.lookup (Layout.serviceMonitor node p) = v.lookup (Layout.serviceMonitor node p)) :
      SameCounters node p v w :=
    fun legible => ⟨fun x there => legible x (h ▸ there), by rw [countersIn, countersIn, h]⟩
  refine ⟨fun _ => same rfl, fun first second legible => ?_, fun hq change => same ?_,
    fun hq absent change => same ?_⟩
  · obtain ⟨legible', kept⟩ := first legible
    obtain ⟨legible'', kept'⟩ := second legible'
    exact ⟨legible'', kept'.trans kept⟩
  · exact record.edit hq change
  · exact record.make hq absent change

/-- A change of a record that leaves the counters alone, whether it can be written
or not. -/
theorem within_update_counters (finite : at_.isFinite = true)
    {edit : Service.Monitor → Service.Monitor} (regular : ∀ m, m.Regular → (edit m).Regular)
    (kept : ∀ m, (edit m).retries = m.retries) :
    Within (Framed (SameCounters node p)) (updateInstanceMonitor node p at_ edit) := by
  intro s
  refine ⟨(within_update_legible finite regular s).journal, fun legible => ?_⟩
  have current := legible.regular
  have next := regular _ current
  refine ⟨legible_after_update finite legible next, ?_⟩
  rcases lookup_after_update node p s at_ edit with same | written
  · rw [countersIn, same, countersIn]
  · rw [countersIn_data, countersIn_data,
      instanceMonitor_of_written (next.dated_at finite _) written]
    exact (Service.Monitor.alike_dated _ _ at_).retries.trans (kept _)

/-- **A change of a record that is made** leaves the counters that were meant, if
it leaves a record that can be read. -/
theorem counters_of_update (finite : at_.isFinite = true)
    {edit : Service.Monitor → Service.Monitor} (next : (edit (instanceMonitor s node p)).Regular)
    {changed : Bool} {s' : Store} (run : updateInstanceMonitor node p at_ edit s = .ok changed s') :
    (instanceMonitor s' node p).retries = (edit (instanceMonitor s node p)).retries := by
  have dated := Service.Monitor.alike_dated (edit (instanceMonitor s node p))
    (instanceMonitor s node p) at_
  rcases updateInstanceMonitor_eq_ok run with ⟨kept, same⟩ | written
  · rw [kept]
    exact (dated.trans (.of_beq same)).retries
  · rw [instanceMonitor_of_written (next.dated_at finite _) written]
    exact dated.retries

end Node.Blob

end HaCluster
