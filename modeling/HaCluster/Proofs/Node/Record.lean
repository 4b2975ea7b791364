import HaCluster.Proofs.Node.Frame
import HaCluster.Proofs.Service.Record

/-!
# The record of an instance in the tree

The monitor finds its record of an instance where it left it. A change of the
record that can be read leaves one that can be read again, and that differs from
what was meant at most in its date (`updateInstanceMonitor_ok`), whether it was
written or found to be there already.

The record lies in the status document, and whoever reads the document finds the
same record (`monitor_of_document`).
-/

namespace HaCluster

open Value Store Mutation

namespace Service.Monitor

variable {m m' : Monitor} {at_ : Float}

/-- Two records that differ at most in their dates. -/
structure Alike (m m' : Monitor) : Prop where
  state : m'.state = m.state
  localExpect : m'.localExpect = m.localExpect
  globalExpect : m'.globalExpect = m.globalExpect
  retries : m'.retries = m.retries

theorem Alike.of_beq (h : (m == m') = true) : m.Alike m' := by
  change (m.state == m'.state && m.stateSince == m'.stateSince && m.localExpect == m'.localExpect
    && m.globalExpect == m'.globalExpect && m.retries == m'.retries) = true at h
  simp only [Bool.and_eq_true, beq_iff_eq] at h
  obtain ⟨⟨⟨⟨state, -⟩, here⟩, everywhere⟩, retries⟩ := h
  exact ⟨state.symm, here.symm, everywhere.symm, retries.symm⟩

theorem Alike.trans {m'' : Monitor} (h : m.Alike m') (h' : m'.Alike m'') : m.Alike m'' :=
  ⟨h'.state.trans h.state, h'.localExpect.trans h.localExpect,
    h'.globalExpect.trans h.globalExpect, h'.retries.trans h.retries⟩

theorem alike_dated (next current : Monitor) (at_ : Float) :
    next.Alike (next.dated current at_) := by
  unfold dated
  split <;> exact ⟨rfl, rfl, rfl, rfl⟩

theorem Regular.dated_at {next : Monitor} (h : next.Regular) (finite : at_.isFinite = true)
    (current : Monitor) : (next.dated current at_).Regular := by
  unfold Monitor.dated
  split
  · exact h
  · exact ⟨finite, h.sorted, h.counted⟩

/-- The later one of two records is `ready` since a time if the earlier one was
not, and since when the earlier one was if it was. -/
def ReadyFrom (at_ : Float) (m m' : Monitor) : Prop :=
  m'.state = .ready → m'.stateSince = if m.state = .ready then m.stateSince else at_

/-- The later one of two records is `ready` only if it is the earlier one. -/
def Clears (m m' : Monitor) : Prop := m'.state = .ready → m' = m

theorem Clears.refl (m : Monitor) : m.Clears m := fun _ => rfl

theorem Clears.trans {m'' : Monitor} (h : m.Clears m') (h' : m'.Clears m'') : m.Clears m'' := by
  intro ready
  have same := h' ready
  rw [same] at ready ⊢
  exact h ready

theorem ReadyFrom.clears {m'' : Monitor} (h : m.ReadyFrom at_ m') (h' : m'.Clears m'') :
    m.ReadyFrom at_ m'' := by
  intro ready
  have same := h' ready
  rw [same] at ready ⊢
  exact h ready

theorem Clears.readyFrom (h : m.Clears m') : m.ReadyFrom at_ m' := by
  intro ready
  have same := h ready
  rw [same] at ready ⊢
  rw [if_pos ready]

end Service.Monitor

namespace Node.Blob

variable {R : String → Entries Value → Prop} {node p : String} {s s' : Store}

theorem lookup_serviceMonitor {doc : Entries Value}
    (there : s.data.lookup (Layout.serviceStatus node p) = some (.map doc)) :
    s.data.lookup (Layout.serviceMonitor node p) = Entries.get? doc "monitor" :=
  lookup_key there "monitor"

theorem instanceMonitor_eq (s : Store) (node p : String) :
    instanceMonitor s node p
      = ((s.data.lookup (Layout.serviceMonitor node p)).bind
        (fun v => (Decode.ofValue Service.Monitor.decode v).toOption)).getD
          Service.Monitor.blank := by
  unfold instanceMonitor instanceMonitor? Store.get
  cases s.data.lookup (Layout.serviceMonitor node p) <;> rfl

/-- **The record in a document that can be read** is the record. -/
theorem monitor_of_document {doc : Entries Value} {i : Service.Instance}
    (there : s.data.lookup (Layout.serviceStatus node p) = some (.map doc))
    (read : Decode.ofValue Service.Instance.decode (.map doc) = .ok i) :
    i.monitor = instanceMonitor s node p := by
  rw [instanceMonitor_eq, lookup_serviceMonitor there]
  exact Service.Instance.monitor_of_decode read

/-- A record that was written and can be read is found as it was written. -/
theorem instanceMonitor_of_written {m : Service.Monitor} (regular : m.Regular)
    (written : s.data.lookup (Layout.serviceMonitor node p) = some m.toValue) :
    instanceMonitor s node p = m := by
  rw [instanceMonitor_eq, written, Option.bind_some, Service.Monitor.decode_toValue regular]
  rfl

/-- **A record that is changed** is found as it was meant. -/
theorem updateInstanceMonitor_ok (rule : Rule R) (h : Shaped R node s) {at_ : Float}
    (finite : at_.isFinite = true) {edit : Service.Monitor → Service.Monitor}
    (current : (instanceMonitor s node p).Regular)
    (next : (edit (instanceMonitor s node p)).Regular) :
    ∃ changed s', updateInstanceMonitor node p at_ edit s = .ok changed s'
      ∧ (instanceMonitor s' node p).Regular
      ∧ (edit (instanceMonitor s node p)).Alike (instanceMonitor s' node p) := by
  obtain ⟨u, t, made, -, doc, hdoc⟩ := takes_ensureInstance (p := p) rule s h
  -- the document is made without a record
  have kept : instanceMonitor t node p = instanceMonitor s node p := by
    have framed := framed_ensureInstance (frame_record node p) p s
    unfold Mutation.after at framed
    rw [made] at framed
    rw [instanceMonitor_eq, instanceMonitor_eq, framed.data]
  have run : updateInstanceMonitor node p at_ edit s = writeInstanceMonitor node p at_ edit t :=
    bind_ok made
  rw [run, ← kept]
  rw [← kept] at current next
  have alike := Service.Monitor.alike_dated (edit (instanceMonitor t node p))
    (instanceMonitor t node p) at_
  have regular := next.dated_at finite (instanceMonitor t node p)
  unfold writeInstanceMonitor
  dsimp only
  generalize (edit (instanceMonitor t node p)).dated (instanceMonitor t node p) at_ = new
    at alike regular
  split
  · rename_i same
    exact ⟨false, t, rfl, current, alike.trans (.of_beq (Bool.and_eq_true_iff.1 same).1)⟩
  · obtain ⟨fs, s', stored, change⟩ := set_key_ok (k := "monitor") (x := new.toValue) hdoc
    have written : s'.data.lookup (Layout.serviceMonitor node p) = some new.toValue := by
      have followed := follow?_lookup (r := [])
        (Path.allKeys_ofKeys ["cluster", "nodes", node, "services", "status", p, "monitor"])
        (List.cons_ne_nil _ _) change
      exact (Option.some.inj followed).symm
    have found : instanceMonitor s' node p = new := instanceMonitor_of_written regular written
    exact ⟨true, s', bind_ok stored, found ▸ regular, found ▸ alike⟩

/-! ## The state that a record is left in -/

/-- The record of an instance was left in a state: it is found in it, or it was
written down and cannot be read again for what else it holds. -/
def LeftIn (node p : String) (state : Service.State) (s : Store) : Prop :=
  (instanceMonitor s node p).state = state
    ∨ ∃ m : Service.Monitor, ¬ m.Regular
      ∧ s.data.lookup (Layout.serviceMonitor node p) = some m.toValue
      ∧ m.state = state

variable {st : Service.State}

theorem LeftIn.congr (h : LeftIn node p st s)
    (same : s'.data.lookup (Layout.serviceMonitor node p)
      = s.data.lookup (Layout.serviceMonitor node p)) : LeftIn node p st s' := by
  unfold LeftIn at h ⊢
  rw [instanceMonitor_eq, same, ← instanceMonitor_eq]
  exact h

/-- A record that cannot be read is that of an idle instance. -/
theorem LeftIn.state (h : LeftIn node p st s) :
    (instanceMonitor s node p).state = st ∨ (instanceMonitor s node p).state = .idle := by
  rcases h with here | ⟨m, -, written, rfl⟩
  · exact .inl here
  · rw [instanceMonitor_eq, written, Option.bind_some]
    cases read : Decode.ofValue Service.Monitor.decode m.toValue with
    | error e => exact .inr rfl
    | ok m' => exact .inl (Service.Monitor.state_of_decode read)

theorem leftIn_of_written {m : Service.Monitor}
    (written : s.data.lookup (Layout.serviceMonitor node p) = some m.toValue) :
    LeftIn node p m.state s := by
  by_cases regular : m.Regular
  · exact .inl (congrArg Service.Monitor.state (instanceMonitor_of_written regular written))
  · exact .inr ⟨m, regular, written, rfl⟩

/-- A change of a record that succeeds leaves everything as it is, where the record is
there and what was meant, or writes down what was meant. It answers which. -/
theorem updateInstanceMonitor_split {at_ : Float} {edit : Service.Monitor → Service.Monitor}
    {changed : Bool} (run : updateInstanceMonitor node p at_ edit s = .ok changed s') :
    let current := instanceMonitor s node p
    let next := (edit current).dated current at_
    changed = false ∧ s' = s ∧ (next == current) = true
        ∧ (s.data.lookup (Layout.serviceMonitor node p)).isSome
      ∨ changed = true ∧ s'.data.lookup (Layout.serviceMonitor node p) = some next.toValue
        ∧ ((next == current) = true → s.data.lookup (Layout.serviceMonitor node p) = none) := by
  have framed := framed_ensureInstance (frame_record node p) p s
  obtain ⟨u, t, made, run⟩ := bind_eq_ok run
  unfold Mutation.after at framed
  rw [made] at framed
  -- the document is made without a record
  have same : t.data.lookup (Layout.serviceMonitor node p)
      = s.data.lookup (Layout.serviceMonitor node p) := framed.data
  have kept : instanceMonitor t node p = instanceMonitor s node p := by
    rw [instanceMonitor_eq, instanceMonitor_eq, same]
  unfold writeInstanceMonitor Store.has at run
  dsimp only at run ⊢
  rw [kept, same] at run
  split at run
  · next found =>
    obtain ⟨meant, there⟩ := Bool.and_eq_true_iff.1 found
    obtain ⟨x, record⟩ := Option.isSome_iff_exists.1 there
    obtain ⟨doc, document⟩ := exists_map_of_lookup_key record
    cases (ensureInstance_there document).symm.trans made
    cases run
    exact .inl ⟨rfl, rfl, meant, there⟩
  · next other =>
    obtain ⟨fs, t', stored, ended⟩ := bind_eq_ok run
    cases ended
    refine .inr ⟨rfl, lookup_of_set stored, fun meant => ?_⟩
    rw [meant, Bool.true_and] at other
    exact Option.not_isSome_iff_eq_none.1 other

theorem updateInstanceMonitor_eq_ok {at_ : Float} {edit : Service.Monitor → Service.Monitor}
    {changed : Bool} (run : updateInstanceMonitor node p at_ edit s = .ok changed s') :
    let current := instanceMonitor s node p
    let next := (edit current).dated current at_
    instanceMonitor s' node p = current ∧ (next == current) = true
      ∨ s'.data.lookup (Layout.serviceMonitor node p) = some next.toValue :=
  (updateInstanceMonitor_split run).imp (fun kept => ⟨by rw [kept.2.1], kept.2.2.1⟩)
    fun written => written.2.1

/-- **A record that is changed** is left in the state that was meant, whatever
it was and whenever it is changed. -/
theorem leftIn_of_update {at_ : Float} {edit : Service.Monitor → Service.Monitor} {changed : Bool}
    (run : updateInstanceMonitor node p at_ edit s = .ok changed s') :
    LeftIn node p (edit (instanceMonitor s node p)).state s' := by
  rw [← (Service.Monitor.alike_dated _ (instanceMonitor s node p) at_).state]
  rcases updateInstanceMonitor_eq_ok run with ⟨kept, same⟩ | written
  · left
    rw [kept]
    exact (Service.Monitor.Alike.of_beq same).state
  · exact leftIn_of_written written

/-! ## Since when a record is ready -/

/-- **A record that is changed** is `ready` since it is changed, or since it was
`ready` before. -/
theorem readyFrom_of_update {at_ : Float} {edit : Service.Monitor → Service.Monitor}
    {changed : Bool} (run : updateInstanceMonitor node p at_ edit s = .ok changed s')
    (kept : ∀ m, (edit m).stateSince = m.stateSince) (finite : at_.isFinite = true)
    (dated : (instanceMonitor s node p).state = .ready →
      (instanceMonitor s node p).stateSince.isFinite = true) :
    (instanceMonitor s node p).ReadyFrom at_ (instanceMonitor s' node p) := by
  intro ready
  rcases updateInstanceMonitor_eq_ok run with ⟨same, -⟩ | written
  · rw [same] at ready ⊢
    rw [if_pos ready]
  · generalize instanceMonitor s node p = current at dated written ⊢
    rw [instanceMonitor_eq, written, Option.bind_some] at ready ⊢
    cases read : Decode.ofValue Service.Monitor.decode
        ((edit current).dated current at_).toValue with
    | error e =>
      -- what cannot be read is no record that is ready
      rw [read] at ready
      cases ready
    | ok m =>
      rw [read] at ready
      change m.state = .ready at ready
      change m.stateSince = _
      rw [Service.Monitor.state_of_decode read] at ready
      unfold Service.Monitor.dated at ready read
      split at ready
      · next unchanged =>
        rw [if_pos unchanged] at read
        rw [unchanged] at ready
        have since : ((edit current).stateSince).isFinite = true := by
          rw [kept]
          exact dated ready
        rw [Service.Monitor.stateSince_of_decode since read, if_pos ready, kept]
      · next changed =>
        rw [if_neg changed] at read
        change (edit current).state = .ready at ready
        rw [ready] at changed
        have since : m.stateSince = at_ :=
          Service.Monitor.stateSince_of_decode (m := { edit current with stateSince := at_ })
            finite read
        rw [since, if_neg (Ne.symm changed)]

/-- A record that is dropped is `ready` only if it stays. -/
theorem clears_dropInstance (h : Shaped R node s) {u : Unit}
    (run : dropInstance node p s = .ok u s') :
    (instanceMonitor s node p).Clears (instanceMonitor s' node p) := by
  obtain ⟨st, hst, -⟩ := h.instances
  obtain ⟨fs, t, gone, change⟩ := Store.unsetIfPresent_key_ok (k := p) hst
  have same : dropInstance node p s = .ok () t := bind_ok gone
  cases same.symm.trans run
  intro ready
  rcases change with kept | dropped
  · rw [instanceMonitor_eq, instanceMonitor_eq, kept]
  · have keys : ((statuses node).key p ++ [Segment.key "monitor"]).AllKeys :=
      Path.allKeys_ofKeys ["cluster", "nodes", node, "services", "status", p, "monitor"]
    have absent : s'.data.lookup (Layout.serviceMonitor node p) = none :=
      lookup_enact?_above keys (List.cons_ne_nil _ _) dropped
    rw [instanceMonitor_eq, absent] at ready
    cases ready

end Node.Blob

end HaCluster
