import HaCluster.Node.Decision
import HaCluster.Proofs.Node.Legible

/-!
# What becomes of the state of a node

The state of a node is kept in its record, and is changed there alone. A record
that is changed is found in the state that was meant, or in that of a node that has
just started if it cannot be read again (`state_after_update`), as it may be if it
is dated with no finite time.

A node that has just started looks after no services, and neither does one that
waits for its peers or is in maintenance. From the first two it gets to a state in
which it does only when its peers are known or it has waited for long enough
(`Situation.opened`), and from maintenance never (`Situation.decide_maintenance`).
-/

namespace HaCluster.Node

open Value Store Mutation

/-! ## Decisions -/

namespace Situation

variable {s : Situation}

/-- The state that a decision goes to. -/
def goal (s : Situation) : State := s.decide.state.getD s.monitor.state

/-- The state gone to is the one that was decided on, whether it is another one or
not. -/
theorem goal_eq (s : Situation) : s.goal = s.next.state.getD s.monitor.state := by
  show (if s.next.state = some s.monitor.state then none else s.next.state).getD _ = _
  split
  · next same => rw [same]; rfl
  · rfl

theorem holdServices_decide (s : Situation) : s.decide.holdServices = holdsServices s.goal := by
  rw [goal_eq]
  rfl

/-- **A node begins to look after its services** only when its peers are known or it
has waited for them long enough. -/
theorem opened (held : holdsServices s.monitor.state = true)
    (free : holdsServices s.goal = false) :
    s.peersKnown = true ∨ s.rejoinGrace ≤ s.uptime := by
  rw [goal_eq] at free
  unfold next at free
  cases state : s.monitor.state with
  | init =>
    rw [state] at free
    dsimp only at free
    split at free <;> cases free
  | rejoin =>
    rw [state] at free
    dsimp only at free
    split at free
    · next known => exact .inl known
    · split at free
      · next waited => exact .inr waited
      · cases free
  | maintenance =>
    rw [state] at free
    cases free
  | _ =>
    rw [state] at held
    cases held

theorem unattended_not_drained (s : Situation) :
    s.unattended.state.getD s.monitor.state ≠ .drained := by
  unfold unattended
  cases s.monitor.state <;> cases s.frozen <;> simp [Decision.enter, Decision.keep]

theorem drainableDown_of_operational
    (h : s.operational.state.getD s.monitor.state = .drained) : s.drainableDown = true := by
  unfold operational at h
  split at h
  · cases h
  · cases h
  · split at h <;> cases h
  · split at h <;> cases h
  · split at h
    · next down => exact down
    · cases h
  · exact absurd h s.unattended_not_drained

/-- **A node is drained** only when all that a drain stops is down, as far as it can
see. -/
theorem drainableDown_of_goal (h : s.goal = .drained) : s.drainableDown = true := by
  rw [goal_eq] at h
  cases state : s.monitor.state with
  | init | rejoin | maintenance =>
    unfold next at h
    rw [state] at h
    dsimp only at h
    (repeat' split at h) <;> cases h
  | _ =>
    have operates : s.next = s.operational := by
      unfold next
      rw [state]
    exact drainableDown_of_operational (operates ▸ h)

/-- **Maintenance** is not left by a decision, which changes nothing else either. -/
theorem decide_maintenance (h : s.monitor.state = .maintenance) :
    s.decide = { Decision.keep "daemon stopping" with holdServices := true } := by
  have stays : s.next = Decision.keep "daemon stopping" := by
    unfold next
    rw [h]
  unfold decide
  rw [stays, h]
  rfl

end Situation

/-! ## Records -/

namespace Monitor

variable {m m' : Monitor} {at_ : Float}

theorem isPart_state :
    Decode.IsPart fields "status" Named.decode .init (fun x m => { m with state := x })
      Monitor.state where
  found := rfl
  part_set _ _ := rfl
  others := by
    simp only [fields, List.forall_mem_cons, List.not_mem_nil, false_implies, implies_true,
      and_true, true_or, true_and]
    refine ⟨?_, ?_, ?_⟩ <;> exact .inr (Field.beside_withDefault (by decide) fun _ _ => rfl)

/-- Whatever else becomes of a record that is written, its state is read back if
anything is. -/
theorem state_of_decode (read : Decode.ofValue decode m.toValue = .ok m') :
    m'.state = m.state := by
  unfold Decode.ofValue decode toValue at read
  rw [toJson] at read
  rw [isPart_state.record rfl read]
  simp only [toJsonMembers]
  rw [Entries.get?_cons, if_neg (by decide), Entries.get?_cons, if_neg (by decide),
    Entries.get?_cons, if_pos rfl, Option.bind_some, State.decode_toValue]
  rfl

theorem state_dated (next current : Monitor) (at_ : Float) :
    (next.dated current at_).state = next.state := by
  unfold dated
  split <;> rfl

theorem state_of_beq (h : (m == m') = true) : m.state = m'.state := by
  change (m.state == m'.state && m.stateSince == m'.stateSince
    && m.localExpect == m'.localExpect && m.globalExpect == m'.globalExpect) = true at h
  simp only [Bool.and_eq_true, beq_iff_eq] at h
  exact h.1.1.1

end Monitor

namespace Blob

variable {node : String} {s s' : Store} {at_ : Float} {edit : Monitor → Monitor}

theorem monitor_eq (s : Store) (node : String) :
    monitor s node = ((s.data.lookup (Layout.nodeMonitor node)).bind
      (fun v => (Decode.ofValue Monitor.decode v).toOption)).getD Monitor.blank := by
  unfold monitor Store.getD
  cases s.data.lookup (Layout.nodeMonitor node) with
  | none => rfl
  | some v => rfl

/-- The record of a node is read where it lies. -/
theorem monitor_congr (same : s'.data.lookup (Layout.nodeMonitor node)
    = s.data.lookup (Layout.nodeMonitor node)) : monitor s' node = monitor s node := by
  rw [monitor_eq, monitor_eq, same]

/-- A record that cannot be read is that of a node that has just started. -/
theorem state_of_written {m : Monitor}
    (written : s.data.lookup (Layout.nodeMonitor node) = some m.toValue) :
    (monitor s node).state = m.state ∨ (monitor s node).state = .init := by
  rw [monitor_eq, written, Option.bind_some]
  cases read : Decode.ofValue Monitor.decode m.toValue with
  | error e => exact .inr rfl
  | ok m' => exact .inl (Monitor.state_of_decode read)

/-- A change of the record leaves it as it is, or writes down what is meant. -/
theorem after_updateMonitor (node : String) (at_ : Float) (edit : Monitor → Monitor) (s : Store) :
    let next := (edit (monitor s node)).dated (monitor s node) at_
    (updateMonitor node at_ edit).after s = s
      ∨ ((updateMonitor node at_ edit).after s).data.lookup (Layout.nodeMonitor node)
        = some next.toValue := by
  dsimp only
  rw [show (updateMonitor node at_ edit).after s = _ from after_setUnless false true s]
  split
  · exact .inl rfl
  · exact after_set _ _ s

/-- **A record that is changed** is found in the state it was in, in the one that
was meant, or in that of a node that has just started. -/
theorem state_after_update (node : String) (at_ : Float) (edit : Monitor → Monitor) (s : Store) :
    let left := (updateMonitor node at_ edit).after s
    (monitor left node).state = (monitor s node).state
      ∨ (monitor left node).state = (edit (monitor s node)).state
      ∨ (monitor left node).state = .init := by
  dsimp only
  rcases after_updateMonitor node at_ edit s with same | written
  · rw [same]
    exact .inl rfl
  · refine .inr ?_
    rw [← Monitor.state_dated (edit (monitor s node)) (monitor s node) at_]
    exact state_of_written written

/-- A change that is made leaves everything as it is, since that is what was meant, or
writes down what is meant. It answers which. -/
theorem updateMonitor_split {changed : Bool}
    (run : updateMonitor node at_ edit s = .ok changed s') :
    let next := (edit (monitor s node)).dated (monitor s node) at_
    changed = false ∧ s' = s ∧ (next == monitor s node) = true
      ∨ changed = true ∧ (next == monitor s node) = false
        ∧ s'.data.lookup (Layout.nodeMonitor node) = some next.toValue := by
  unfold updateMonitor at run
  dsimp only at run ⊢
  split at run
  · next same =>
    cases run
    exact .inl ⟨rfl, rfl, same⟩
  · next other =>
    obtain ⟨fs, t, stored, ended⟩ := bind_eq_ok run
    cases ended
    exact .inr ⟨rfl, Bool.eq_false_iff.2 other, Store.lookup_of_set stored⟩

theorem updateMonitor_eq_ok {changed : Bool}
    (run : updateMonitor node at_ edit s = .ok changed s') :
    let next := (edit (monitor s node)).dated (monitor s node) at_
    s' = s ∧ (next == monitor s node) = true
      ∨ s'.data.lookup (Layout.nodeMonitor node) = some next.toValue :=
  (updateMonitor_split run).imp (fun kept => kept.2) fun written => written.2.2

/-- A change that is made leaves the record in the state that was meant, or in that
of a node that has just started. -/
theorem state_of_update {changed : Bool} (run : updateMonitor node at_ edit s = .ok changed s') :
    (monitor s' node).state = (edit (monitor s node)).state
      ∨ (monitor s' node).state = .init := by
  rw [← Monitor.state_dated (edit (monitor s node)) (monitor s node) at_]
  rcases updateMonitor_eq_ok run with ⟨rfl, same⟩ | written
  · exact .inl (Monitor.state_of_beq same).symm
  · exact state_of_written written

/-! ## Records that tell their state -/

/-- The tree has a record of a node that can be read, and dated anew, and that says its
state in so many words. -/
structure Tells (node : String) (v : Value) (m : Monitor) : Prop where
  there : ∃ x, v.lookup (Layout.nodeMonitor node) = some x
    ∧ Decode.ofValue Monitor.decode x = .ok m ∧ x.get? "status" = some (Named.toValue m.state)
  dated : m.stateSince.isFinite = true

variable {v w : Value} {m : Monitor}

theorem tells_of_written (written : v.lookup (Layout.nodeMonitor node) = some m.toValue)
    (dated : m.stateSince.isFinite = true) : Tells node v m :=
  ⟨⟨m.toValue, written, Monitor.decode_toValue dated, rfl⟩, dated⟩

theorem Tells.congr (h : Tells node v m)
    (same : w.lookup (Layout.nodeMonitor node) = v.lookup (Layout.nodeMonitor node)) :
    Tells node w m :=
  ⟨let ⟨x, there, told⟩ := h.there; ⟨x, same.trans there, told⟩, h.dated⟩

/-- What a record tells is what the node reads. -/
theorem Tells.monitor (h : Tells node s.data m) : monitor s node = m := by
  obtain ⟨x, there, read, -⟩ := h.there
  rw [monitor_eq, there, Option.bind_some, read]
  rfl

/-- The state of a node is told under a key of its record. -/
theorem Tells.lookup_status (h : Tells node v m) :
    v.lookup ((Layout.nodeMonitor node).key "status") = some (Named.toValue m.state) := by
  obtain ⟨x, there, -, status⟩ := h.there
  rw [show (Layout.nodeMonitor node).key "status" = Layout.nodeMonitor node ++ [.key "status"]
    from rfl, lookup_append, there, Option.bind_some, ← get?_eq_lookup]
  exact status

/-- **A change that is made** leaves a record that tells the state that was meant. -/
theorem Tells.update (h : Tells node s.data m) (finite : at_.isFinite = true)
    (kept : (edit m).stateSince = m.stateSince) {changed : Bool}
    (run : updateMonitor node at_ edit s = .ok changed s') :
    ∃ m', Tells node s'.data m' ∧ m'.state = (edit m).state := by
  have made := updateMonitor_eq_ok run
  dsimp only at made
  rw [h.monitor] at made
  rcases made with ⟨rfl, same⟩ | written
  · exact ⟨m, h, by rw [← Monitor.state_of_beq same, Monitor.state_dated]⟩
  · exact ⟨_, tells_of_written written (Monitor.isFinite_dated (kept ▸ h.dated) finite),
      Monitor.state_dated _ _ _⟩

/-- A change, whether it can be made or not, leaves a record that tells the state that
it told before or the one that was meant. -/
theorem Tells.after_update (h : Tells node s.data m) (finite : at_.isFinite = true)
    (kept : (edit m).stateSince = m.stateSince) :
    ∃ m', Tells node ((updateMonitor node at_ edit).after s).data m'
      ∧ (m'.state = m.state ∨ m'.state = (edit m).state) := by
  rcases after_updateMonitor node at_ edit s with same | written
  · exact ⟨m, same.symm ▸ h, .inl rfl⟩
  · rw [h.monitor] at written
    exact ⟨_, tells_of_written written (Monitor.isFinite_dated (kept ▸ h.dated) finite),
      .inr (Monitor.state_dated _ _ _)⟩

end Blob

end HaCluster.Node
