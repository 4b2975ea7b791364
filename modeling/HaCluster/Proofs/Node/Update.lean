import HaCluster.Node.Update
import HaCluster.Proofs.Decode.Tree
import HaCluster.Proofs.Node.Recorded
import HaCluster.Proofs.Node.State
import HaCluster.Service.Update

/-!
# Records that are changed on request

A request changes the record of a node, or of an instance, and the record that is
read next is the one that was asked for (`Node.Update.meant`, `Service.Update.meant`):
whatever the record was read from, and in whatever words, it can be written and read
again, since what is read from the tree is dated and counted with numbers that can be
(`Service.Monitor.regular_of_decode`).

A record that was asked for is not changed by being asked for again, at whatever time:
the state is the one it is in already, so that it keeps its date.
-/

namespace HaCluster

open Value Store Mutation

theorem Change.apply_apply {α : Type} (c : Change α) (x : Option α) :
    c.apply (c.apply x) = c.apply x := by
  cases c <;> rfl

/-- A finite number is equal to itself. -/
theorem Number.beq_self_of_isFinite {x : Float} (finite : x.isFinite = true) :
    (x == x) = true := by
  have number : x ≠ Float.nan := by
    rintro rfl
    exact absurd finite (by decide)
  exact Float.beq_iff_ne_nan_and_eq.2 ⟨number, number, .inl rfl⟩

namespace Node

/-- The record that a request asks for: what it leaves out stays as it is, and another
state is dated by the time of the request. -/
def Update.meant (u : Update) (at_ : Float) (m : Monitor) : Monitor where
  state := u.state.getD m.state
  stateSince := if u.state.getD m.state = m.state then m.stateSince else at_
  localExpect := u.localExpect.apply m.localExpect
  globalExpect := u.globalExpect.apply m.globalExpect

namespace Monitor

variable {m m' : Monitor} {at_ later : Float} {u : Update}

theorem dated_apply (u : Update) (m : Monitor) (at_ : Float) :
    (u.apply m).dated m at_ = u.meant at_ m := by
  unfold dated Update.apply Update.meant
  dsimp only
  split <;> rfl

theorem meant_again : u.meant later (u.meant at_ m) = u.meant at_ m := by
  have state : u.state.getD (u.state.getD m.state) = u.state.getD m.state := by
    cases u.state <;> rfl
  unfold Update.meant
  dsimp only
  rw [if_pos state, state, Change.apply_apply, Change.apply_apply]

/-- A record that is as it was asked for is the one that was asked for. -/
theorem meant_of_beq (h : (u.meant at_ m == m) = true) : u.meant at_ m = m := by
  change (u.state.getD m.state == m.state && _ && u.localExpect.apply m.localExpect == m.localExpect
    && u.globalExpect.apply m.globalExpect == m.globalExpect) = true at h
  simp only [Bool.and_eq_true, beq_iff_eq] at h
  obtain ⟨⟨⟨state, -⟩, here⟩, everywhere⟩ := h
  unfold Update.meant
  rw [if_pos state, state, here, everywhere]

theorem beq_self (dated : m.stateSince.isFinite = true) : (m == m) = true := by
  change (m.state == m.state && m.stateSince == m.stateSince
    && m.localExpect == m.localExpect && m.globalExpect == m.globalExpect) = true
  rw [Number.beq_self_of_isFinite dated]
  simp only [beq_self_eq_true, Bool.and_self]

theorem isFinite_blank : blank.stateSince.isFinite = true := by decide +kernel

/-- **A record that is read** is dated with a finite time. -/
theorem isFinite_of_decode {v : Value} (read : Decode.ofValue decode v = .ok m) :
    m.stateSince.isFinite = true := by
  refine Decode.record_ofValue (I := fun m : Monitor => m.stateSince.isFinite = true) ?_
    isFinite_blank read
  simp only [fields, List.forall_mem_cons, List.not_mem_nil, false_implies, implies_true, and_true]
  refine ⟨?_, ?_, ?_, ?_⟩
  case refine_2 =>
    exact Field.keepsFrom_withDefault (fun tree value _ => Decode.isFinite_of_float tree value)
      fun _ => isFinite_blank
  all_goals exact Field.keepsFrom_withDefault (fun _ _ h => h) fun h => h

theorem isFinite_meant (dated : m.stateSince.isFinite = true) (finite : at_.isFinite = true) :
    (u.meant at_ m).stateSince.isFinite = true := by
  unfold Update.meant
  split
  · exact dated
  · exact finite

end Monitor

namespace Blob

variable {node : String} {s s' : Store} {at_ : Float} {u : Update} {changed : Bool}

/-- The record of a node is dated with a finite time, wherever it comes from. -/
theorem isFinite_monitor (s : Store) (node : String) :
    (monitor s node).stateSince.isFinite = true := by
  rw [monitor_eq]
  cases found : (s.data.lookup (Layout.nodeMonitor node)).bind
      (fun v => (Decode.ofValue Monitor.decode v).toOption) with
  | none => exact Monitor.isFinite_blank
  | some m =>
    obtain ⟨v, -, read⟩ := Option.bind_eq_some_iff.1 found
    exact Monitor.isFinite_of_decode (Decode.eq_ok_of_toOption read)

/-- A record that was written is read as it was written. -/
theorem monitor_of_written {m : Monitor} (dated : m.stateSince.isFinite = true)
    (written : s.data.lookup (Layout.nodeMonitor node) = some m.toValue) : monitor s node = m := by
  rw [monitor_eq, written, Option.bind_some, Monitor.decode_toValue dated]
  rfl

/-- **A request for the record of a node** is met. -/
theorem monitor_of_update (finite : at_.isFinite = true)
    (run : updateMonitor node at_ u.apply s = .ok changed s') :
    monitor s' node = u.meant at_ (monitor s node) := by
  have split := updateMonitor_split run
  dsimp only at split
  rw [Monitor.dated_apply] at split
  rcases split with ⟨-, rfl, same⟩ | ⟨-, -, written⟩
  · exact (Monitor.meant_of_beq same).symm
  · exact monitor_of_written (Monitor.isFinite_meant (isFinite_monitor s node) finite) written

/-- The record of a node is said to have changed exactly if the tree has. -/
theorem unchanged_of_update (finite : at_.isFinite = true)
    (run : updateMonitor node at_ u.apply s = .ok changed s') :
    if changed then s'.data ≠ s.data else s' = s := by
  have split := updateMonitor_split run
  dsimp only at split
  rw [Monitor.dated_apply] at split
  rcases split with ⟨rfl, same, -⟩ | ⟨rfl, other, written⟩
  · exact same
  · intro same
    have dated := Monitor.isFinite_meant (u := u) (isFinite_monitor s node) finite
    -- what was written was there, so that it was read
    rw [same] at written
    rw [monitor_of_written dated written, Monitor.meant_again, Monitor.beq_self dated] at other
    cases other

/-- **A request that was met** changes nothing if it is made again. -/
theorem updateMonitor_again (later : Float) (finite : at_.isFinite = true)
    (run : updateMonitor node at_ u.apply s = .ok changed s') :
    updateMonitor node later u.apply s' = .ok false s' := by
  have dated := Monitor.isFinite_meant (u := u) (isFinite_monitor s node) finite
  unfold updateMonitor
  dsimp only
  rw [Monitor.dated_apply, monitor_of_update finite run, Monitor.meant_again,
    Monitor.beq_self dated]
  rfl

end Blob

end Node

namespace Service

/-- The record that a request asks for: what it leaves out stays as it is, and another
state is dated by the time of the request. -/
def Update.meant (u : Update) (at_ : Float) (m : Monitor) : Monitor where
  state := u.state.getD m.state
  stateSince := if u.state.getD m.state = m.state then m.stateSince else at_
  localExpect := u.localExpect.apply m.localExpect
  globalExpect := u.globalExpect.apply m.globalExpect
  retries := if u.resetRetries then [] else m.retries

namespace Monitor

variable {m m' : Monitor} {at_ later : Float} {u : Update}

theorem regular_apply (u : Update) (h : m.Regular) : (u.apply m).Regular := by
  refine ⟨h.dated, ?_, ?_⟩ <;> unfold Update.apply <;> dsimp only <;> split
  · exact Entries.Sorted.nil
  · exact h.sorted
  · exact fun e none => absurd none List.not_mem_nil
  · exact h.counted

theorem dated_apply (u : Update) (m : Monitor) (at_ : Float) :
    (u.apply m).dated m at_ = u.meant at_ m := by
  unfold dated Update.apply Update.meant
  dsimp only
  split <;> rfl

theorem meant_again : u.meant later (u.meant at_ m) = u.meant at_ m := by
  have state : u.state.getD (u.state.getD m.state) = u.state.getD m.state := by
    cases u.state <;> rfl
  have retries : (if u.resetRetries then [] else if u.resetRetries then [] else m.retries)
      = if u.resetRetries then [] else m.retries := by
    split <;> rfl
  unfold Update.meant
  dsimp only
  rw [if_pos state, state, retries, Change.apply_apply, Change.apply_apply]

/-- A record that is as it was asked for is the one that was asked for. -/
theorem meant_of_beq (h : (u.meant at_ m == m) = true) : u.meant at_ m = m := by
  change (u.state.getD m.state == m.state && _ && u.localExpect.apply m.localExpect == m.localExpect
    && u.globalExpect.apply m.globalExpect == m.globalExpect
    && (if u.resetRetries then [] else m.retries) == m.retries) = true at h
  simp only [Bool.and_eq_true, beq_iff_eq] at h
  obtain ⟨⟨⟨⟨state, -⟩, here⟩, everywhere⟩, retries⟩ := h
  unfold Update.meant
  rw [if_pos state, state, here, everywhere, retries]

theorem beq_self (dated : m.stateSince.isFinite = true) : (m == m) = true := by
  change (m.state == m.state && m.stateSince == m.stateSince && m.localExpect == m.localExpect
    && m.globalExpect == m.globalExpect && m.retries == m.retries) = true
  rw [Number.beq_self_of_isFinite dated]
  simp only [beq_self_eq_true, Bool.and_self]

/-- **A record that is read** can be written, and read again. -/
theorem regular_of_decode {v : Value} (read : Decode.ofValue decode v = .ok m) : m.Regular := by
  refine Decode.record_ofValue (I := Regular) ?_ regular_blank read
  simp only [fields, List.forall_mem_cons, List.not_mem_nil, false_implies, implies_true, and_true]
  refine ⟨?_, ?_, ?_, ?_, ?_⟩
  case refine_2 =>
    exact Field.keepsFrom_withDefault
      (fun tree value h => ⟨Decode.isFinite_of_float tree value, h.sorted, h.counted⟩)
      fun h => ⟨regular_blank.dated, h.sorted, h.counted⟩
  case refine_5 =>
    exact Field.keepsFrom_withDefault
      (fun _ value h => ⟨h.dated, Decode.sorted_entries value,
        Decode.forall_entries Decode.lt_of_u32 value⟩)
      fun h => ⟨h.dated, .nil, fun _ none => absurd none List.not_mem_nil⟩
  all_goals
    exact Field.keepsFrom_withDefault (fun _ _ h => ⟨h.dated, h.sorted, h.counted⟩)
      fun h => ⟨h.dated, h.sorted, h.counted⟩

theorem regular_meant (h : m.Regular) (finite : at_.isFinite = true) :
    (u.meant at_ m).Regular := by
  rw [← dated_apply]
  exact (regular_apply u h).dated_at finite m

end Monitor

end Service

namespace Node.Blob

variable {node p : String} {s s' : Store} {at_ : Float} {u : Service.Update} {changed : Bool}

/-- The record of an instance is one that can be written, wherever it comes from. -/
theorem regular_instanceMonitor (s : Store) (node p : String) :
    (instanceMonitor s node p).Regular := by
  rw [instanceMonitor_eq]
  cases found : (s.data.lookup (Layout.serviceMonitor node p)).bind
      (fun v => (Decode.ofValue Service.Monitor.decode v).toOption) with
  | none => exact Service.Monitor.regular_blank
  | some m =>
    obtain ⟨v, -, read⟩ := Option.bind_eq_some_iff.1 found
    exact Service.Monitor.regular_of_decode (Decode.eq_ok_of_toOption read)

theorem instanceMonitor?_of_lookup {x : Value} {m : Service.Monitor}
    (there : s.data.lookup (Layout.serviceMonitor node p) = some x)
    (read : Decode.ofValue Service.Monitor.decode x = .ok m) :
    instanceMonitor? s node p = some m := by
  unfold instanceMonitor? Store.get
  rw [there]
  show (Decode.ofValue Service.Monitor.decode x).toOption = _
  rw [read]
  rfl

/-- **A request for the record of an instance** is met. -/
theorem instanceMonitor_of_update (finite : at_.isFinite = true)
    (legible : ∀ x, s.data.lookup (Layout.serviceMonitor node p) = some x →
      ∃ m, Decode.ofValue Service.Monitor.decode x = .ok m)
    (run : updateInstanceMonitor node p at_ u.apply s = .ok changed s') :
    instanceMonitor? s' node p = some (u.meant at_ (instanceMonitor s node p)) := by
  have split := updateInstanceMonitor_split run
  dsimp only at split
  rw [Service.Monitor.dated_apply] at split
  rcases split with ⟨-, rfl, same, there⟩ | ⟨-, written, -⟩
  · obtain ⟨x, there⟩ := Option.isSome_iff_exists.1 there
    obtain ⟨m, read⟩ := legible x there
    have found := instanceMonitor?_of_lookup there read
    rw [Service.Monitor.meant_of_beq same, instanceMonitor, found, Option.getD_some]
  · exact instanceMonitor?_of_lookup written (Service.Monitor.decode_toValue
      (Service.Monitor.regular_meant (regular_instanceMonitor s node p) finite))

/-- The record of an instance is said to have changed exactly if the tree has. -/
theorem unchanged_of_updateInstance (finite : at_.isFinite = true)
    (run : updateInstanceMonitor node p at_ u.apply s = .ok changed s') :
    if changed then s'.data ≠ s.data else s' = s := by
  have split := updateInstanceMonitor_split run
  dsimp only at split
  rw [Service.Monitor.dated_apply] at split
  rcases split with ⟨rfl, same, -⟩ | ⟨rfl, written, new⟩
  · exact same
  · intro same
    have regular := Service.Monitor.regular_meant (u := u) (regular_instanceMonitor s node p) finite
    -- what was written was there, so that it was read
    rw [same] at written
    rw [instanceMonitor_of_written regular written, Service.Monitor.meant_again,
      written] at new
    cases new (Service.Monitor.beq_self regular.dated)

/-- **A request that was met** changes nothing if it is made again. -/
theorem updateInstanceMonitor_again (later : Float) (finite : at_.isFinite = true)
    (run : updateInstanceMonitor node p at_ u.apply s = .ok changed s') :
    updateInstanceMonitor node p later u.apply s' = .ok false s' := by
  have regular := Service.Monitor.regular_meant (u := u) (regular_instanceMonitor s node p) finite
  have split := updateInstanceMonitor_split run
  dsimp only at split
  rw [Service.Monitor.dated_apply] at split
  obtain ⟨met, x, there⟩ : instanceMonitor s' node p = u.meant at_ (instanceMonitor s node p)
      ∧ ∃ x, s'.data.lookup (Layout.serviceMonitor node p) = some x := by
    rcases split with ⟨-, rfl, same, there⟩ | ⟨-, written, -⟩
    · exact ⟨(Service.Monitor.meant_of_beq same).symm, Option.isSome_iff_exists.1 there⟩
    · exact ⟨instanceMonitor_of_written regular written, _, written⟩
  obtain ⟨doc, document⟩ := exists_map_of_lookup_key there
  refine (bind_ok (ensureInstance_there document)).trans ?_
  unfold writeInstanceMonitor Store.has
  dsimp only
  rw [Service.Monitor.dated_apply, met, Service.Monitor.meant_again, there,
    Service.Monitor.beq_self regular.dated]
  rfl

end Node.Blob

end HaCluster
