import HaCluster.Proofs.Node.Record
import HaCluster.Proofs.Store.Atomic

/-!
# Records that can be read

A node decides by its records, and takes a record that it cannot read for that of
a node that has just started, or of an instance nothing was done about. So it has
to be able to read again what it has written. It is, as long as the records are
dated with finite times and the counters do not outgrow what a reader takes: then
a change of a record that can be read, or of one that is not there, leaves one
that can be read (`notes_legibleNode`, `legible_after_update`). Nothing else that
a node edits touches the records.
-/

namespace HaCluster

open Value Store Mutation

namespace Node

theorem State.decode_toValue (s : State) :
    Named.decode .value (Named.toValue s).toJson = .ok s := by
  cases s <;> rfl

theorem LocalExpect.decode_toValue (e : LocalExpect) :
    Named.decode .value (Named.toValue e).toJson = .ok e := by
  cases e <;> rfl

theorem GlobalExpect.decode_toValue (e : GlobalExpect) :
    Named.decode .value (Named.toValue e).toJson = .ok e := by
  cases e <;> rfl

namespace Monitor

variable {m : Monitor} {at_ : Float}

/-- **A record of a node is read back** as it was written. -/
theorem decode_toValue (dated : m.stateSince.isFinite = true) :
    Decode.ofValue decode m.toValue = .ok m := by
  have status := State.decode_toValue m.state
  have since := Decode.float_real dated
  have here := Decode.optional_ofOption (a := m.localExpect) LocalExpect.decode_toValue nofun
  have everywhere :=
    Decode.optional_ofOption (a := m.globalExpect) GlobalExpect.decode_toValue nofun
  unfold Decode.ofValue decode toValue
  rw [toJson, Decode.record_object]
  simp only [toJsonMembers]
  rw [Decode.members_known (by rfl) (by rfl) everywhere,
    Decode.members_known (by rfl) (by rfl) here, Decode.members_known (by rfl) (by rfl) status,
    Decode.members_known (by rfl) (by rfl) since]
  rfl

theorem isFinite_dated {next current : Monitor} (h : next.stateSince.isFinite = true)
    (finite : at_.isFinite = true) : (next.dated current at_).stateSince.isFinite = true := by
  unfold Monitor.dated
  split
  · exact h
  · exact finite

end Monitor

namespace Blob

variable {node p : String} {s : Store} {at_ : Float}

/-! ## The record of the node -/

/-- The record of a node is there and can be read. -/
def LegibleNode (node : String) (v : Value) : Prop :=
  ∃ x m, v.lookup (Layout.nodeMonitor node) = some x
    ∧ Decode.ofValue Node.Monitor.decode x = .ok m ∧ m.stateSince.isFinite = true

theorem frame_legibleNode (node : String) :
    Frame (Edits node False (fun _ => True) (· ≠ node)) (Makes node)
      (fun v w => LegibleNode node v → LegibleNode node w) :=
  (frame_nodeMonitor node).keeps fun same ⟨x, m, there, read⟩ => ⟨x, m, same.trans there, read⟩

/-- **A change of the record of a node** leaves one that can be read. -/
theorem notes_legibleNode (finite : at_.isFinite = true) :
    Notes node at_ (fun v w => LegibleNode node v → LegibleNode node w) := by
  intro edit kept s
  refine ⟨(Notes.of_frame (frame_statuses node) trivial at_ edit kept s).journal, ?_⟩
  rintro ⟨x, m, there, read, dated⟩
  have current : monitor s node = m := by
    unfold monitor Store.getD
    rw [there, Option.getD_some, read]
    rfl
  have next : ((edit m).dated m at_).stateSince.isFinite = true :=
    Monitor.isFinite_dated (kept m ▸ dated) finite
  have left : (updateMonitor node at_ edit).after s
      = if (edit m).dated m at_ == m then s
        else (Store.set (Layout.nodeMonitor node) ((edit m).dated m at_).toValue).after s := by
    rw [← current]
    exact after_setUnless false true s
  rw [left]
  split
  · exact ⟨x, m, there, read, dated⟩
  · rcases after_set (Layout.nodeMonitor node) ((edit m).dated m at_).toValue s with same | stored
    · rw [same]
      exact ⟨x, m, there, read, dated⟩
    · exact ⟨_, _, stored, Monitor.decode_toValue next, next⟩

/-! ## The records of the instances -/

/-- The record of an instance is not there or can be read, and written again. -/
def LegibleInstance (node p : String) (v : Value) : Prop :=
  ∀ x, v.lookup (Layout.serviceMonitor node p) = some x →
    ∃ m, Decode.ofValue Service.Monitor.decode x = .ok m ∧ m.Regular

theorem LegibleInstance.regular (h : LegibleInstance node p s.data) :
    (instanceMonitor s node p).Regular := by
  rw [instanceMonitor_eq]
  cases there : s.data.lookup (Layout.serviceMonitor node p) with
  | none => exact Service.Monitor.regular_blank
  | some x =>
    obtain ⟨m, read, regular⟩ := h x there
    rw [Option.bind_some, read]
    exact regular

theorem frame_legibleInstance (node p : String) :
    Frame (Edits node True (· ≠ p) (· ≠ node)) (Makes node)
      (fun v w => LegibleInstance node p v → LegibleInstance node p w) :=
  (frame_record node p).keeps fun same h x there => h x (same ▸ there)

/-- A change of the record of an instance leaves it alone, or writes down what was
meant, whether it succeeds or not. -/
theorem lookup_after_update (node p : String) (s : Store) (at_ : Float)
    (edit : Service.Monitor → Service.Monitor) :
    ((updateInstanceMonitor node p at_ edit).after s).data.lookup (Layout.serviceMonitor node p)
        = s.data.lookup (Layout.serviceMonitor node p)
      ∨ ((updateInstanceMonitor node p at_ edit).after s).data.lookup
          (Layout.serviceMonitor node p)
        = some ((edit (instanceMonitor s node p)).dated (instanceMonitor s node p) at_).toValue := by
  have same := framed_ensureInstance (frame_record node p) p s
  unfold updateInstanceMonitor
  rw [after_bind]
  unfold after at same
  cases made : ensureInstance node p s with
  | error e t =>
    rw [made] at same
    exact .inl same.data
  | ok u t =>
    rw [made] at same
    -- the document is made without a record
    have current : instanceMonitor t node p = instanceMonitor s node p := by
      rw [instanceMonitor_eq, instanceMonitor_eq, same.data]
    dsimp only
    rw [show (writeInstanceMonitor node p at_ edit).after t = _ from after_setUnless false true t,
      current]
    split
    · exact .inl same.data
    · rcases after_set (Layout.serviceMonitor node p)
        ((edit (instanceMonitor s node p)).dated (instanceMonitor s node p) at_).toValue t with
        unset | stored
      · rw [unset]
        exact .inl same.data
      · exact .inr stored

/-- **A change of the record of an instance** leaves one that can be read, whether
the change can be written or not. -/
theorem legible_after_update (finite : at_.isFinite = true)
    {edit : Service.Monitor → Service.Monitor} (h : LegibleInstance node p s.data)
    (next : (edit (instanceMonitor s node p)).Regular) :
    LegibleInstance node p ((updateInstanceMonitor node p at_ edit).after s).data := by
  intro x there
  rcases lookup_after_update node p s at_ edit with same | written
  · exact h x (same ▸ there)
  · obtain rfl := Option.some.inj (written.symm.trans there)
    have regular := next.dated_at finite (instanceMonitor s node p)
    exact ⟨_, Service.Monitor.decode_toValue regular, regular⟩

/-- A change of which every record can be written. -/
theorem within_update_legible (finite : at_.isFinite = true)
    {edit : Service.Monitor → Service.Monitor} (kept : ∀ m, m.Regular → (edit m).Regular) :
    Within (Framed (fun v w => LegibleInstance node p v → LegibleInstance node p w))
      (updateInstanceMonitor node p at_ edit) :=
  fun s => ⟨(framed_updateInstanceMonitor (frame_statuses node) (.record trivial) at_ edit s).journal,
    fun h => legible_after_update finite h (kept _ h.regular)⟩

/-- Of an instance that is dropped there is no record. -/
theorem within_dropInstance_legible (node p : String) :
    Within (Framed (fun v w => LegibleInstance node p v → LegibleInstance node p w))
      (dropInstance node p) := by
  have frame := frame_legibleInstance node p
  refine frame.within_bind (fun s => ?_) fun _ => frame.within_pure ()
  rw [after_unsetIfPresent]
  unfold after Store.unset
  cases removed : s.data.remove (Layout.serviceStatus node p) with
  | error e => exact .refl frame s
  | ok r =>
    refine .record (fun _ x there => ?_) _
    have keys : (Layout.serviceStatus node p ++ [Segment.key "monitor"]).AllKeys :=
      Path.allKeys_ofKeys ["cluster", "nodes", node, "services", "status", p, "monitor"]
    have gone : r.2.lookup (Layout.serviceMonitor node p) = none :=
      lookup_enact?_above keys (List.cons_ne_nil _ _) (remove_eq_ok_iff.1 removed).2
    rw [gone] at there
    cases there

end Blob

end Node

end HaCluster
