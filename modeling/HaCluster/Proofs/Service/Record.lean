import HaCluster.Proofs.Decode.Record
import HaCluster.Service.Instance

/-!
# The record inside a status document

The monitor keeps its record of an instance inside the status document of the
instance, and reads it in two ways: by itself, and as a part of the document.
Where the document can be read both find the same (`Instance.monitor_of_decode`).

A record that is written is read back as it was, provided that it is dated and
its counters are numbers that a reader takes (`Monitor.Regular`). The restarts that
a document grants its resources are such numbers, however the document writes them
(`Instance.restarts_lt`).
-/

namespace HaCluster

open Value

namespace Service

/-! ## Words -/

theorem State.decode_toValue (s : State) :
    Named.decode .value (Named.toValue s).toJson = .ok s := by
  cases s <;> rfl

theorem LocalExpect.decode_toValue (e : LocalExpect) :
    Named.decode .value (Named.toValue e).toJson = .ok e := by
  cases e
  rfl

theorem GlobalExpect.decode_toValue (e : GlobalExpect) :
    Named.decode .value (Named.toValue e).toJson = .ok e := by
  cases e <;> rfl

namespace Monitor

variable {m : Monitor}

/-- A record that can be read once it is written. -/
structure Regular (m : Monitor) : Prop where
  dated : m.stateSince.isFinite = true
  sorted : Entries.Sorted m.retries
  counted : ∀ e ∈ m.retries, e.2 < twoTo 32

theorem regular_blank : blank.Regular :=
  ⟨by decide +kernel, Entries.Sorted.nil, fun _ none => absurd none List.not_mem_nil⟩

/-- **A record is read back** as it was written. -/
theorem decode_toValue (h : m.Regular) : Decode.ofValue decode m.toValue = .ok m := by
  have status := State.decode_toValue m.state
  have since := Decode.float_real h.dated
  have here := Decode.optional_ofOption (a := m.localExpect) LocalExpect.decode_toValue nofun
  have everywhere :=
    Decode.optional_ofOption (a := m.globalExpect) GlobalExpect.decode_toValue nofun
  have retries := Decode.entries_mapValues h.sorted fun e he => Decode.u32_ofNat (h.counted e he)
  unfold Decode.ofValue decode toValue
  rw [toJson, Decode.record_object]
  simp only [toJsonMembers]
  rw [Decode.members_known (by rfl) (by rfl) everywhere,
    Decode.members_known (by rfl) (by rfl) here, Decode.members_known (by rfl) (by rfl) retries,
    Decode.members_known (by rfl) (by rfl) status, Decode.members_known (by rfl) (by rfl) since]
  rfl

theorem isPart_state :
    Decode.IsPart fields "status" Named.decode .idle (fun x m => { m with state := x })
      Monitor.state where
  found := rfl
  part_set _ _ := rfl
  others := by
    simp only [fields, List.forall_mem_cons, List.not_mem_nil, false_implies, implies_true,
      and_true, true_or, true_and]
    refine ⟨?_, ?_, ?_, ?_⟩ <;> exact .inr (Field.beside_withDefault (by decide) fun _ _ => rfl)

theorem isPart_stateSince :
    Decode.IsPart fields "status_updated" Decode.float 0 (fun x m => { m with stateSince := x })
      Monitor.stateSince where
  found := rfl
  part_set _ _ := rfl
  others := by
    simp only [fields, List.forall_mem_cons, List.not_mem_nil, false_implies, implies_true,
      and_true, true_or, true_and]
    refine ⟨?_, ?_, ?_, ?_⟩ <;> exact .inr (Field.beside_withDefault (by decide) fun _ _ => rfl)

/-- Whatever else becomes of a record that is written, its state is read back if
anything is. -/
theorem state_of_decode {m' : Monitor} (read : Decode.ofValue decode m.toValue = .ok m') :
    m'.state = m.state := by
  unfold Decode.ofValue decode toValue at read
  rw [toJson] at read
  rw [isPart_state.record rfl read]
  simp only [toJsonMembers]
  rw [Entries.get?_cons, if_neg (by decide), Entries.get?_cons, if_neg (by decide),
    Entries.get?_cons, if_neg (by decide), Entries.get?_cons, if_pos rfl, Option.bind_some,
    State.decode_toValue]
  rfl

/-- Whatever else becomes of a record that is written, its date is read back if it
is one and anything is read. -/
theorem stateSince_of_decode {m' : Monitor} (dated : m.stateSince.isFinite = true)
    (read : Decode.ofValue decode m.toValue = .ok m') : m'.stateSince = m.stateSince := by
  unfold Decode.ofValue decode toValue at read
  rw [toJson] at read
  rw [isPart_stateSince.record rfl read]
  simp only [toJsonMembers]
  rw [Entries.get?_cons, if_neg (by decide), Entries.get?_cons, if_neg (by decide),
    Entries.get?_cons, if_neg (by decide), Entries.get?_cons, if_neg (by decide),
    Entries.get?_cons, if_pos rfl, Option.bind_some, Decode.float_real dated]
  rfl

end Monitor

/-! ## Restarts -/

/-- A resource is not granted more restarts than can be counted. -/
theorem Resource.restarts_lt {o : Origin} {j : Json} {r : Resource} (read : decode o j = .ok r) :
    r.restarts < twoTo 32 := by
  refine Decode.record_keeps (I := fun r => r.restarts < twoTo 32) ?_
    (show 0 < twoTo 32 from Nat.two_pow_pos 32) read
  simp only [List.forall_mem_cons, List.not_mem_nil, false_implies, implies_true, and_true]
  refine ⟨?_, ?_, ?_, ?_, ?_, ?_⟩
  case refine_6 =>
    exact Field.keeps_withDefault (fun value _ => Decode.lt_of_u32 value)
      fun _ => Nat.two_pow_pos 32
  all_goals exact Field.keeps_beside fun _ _ h => h

namespace Instance

/-- The restarts of the resources that an instance reports can be counted. -/
theorem restarts_lt {o : Origin} {j : Json} {i : Instance} (read : decode o j = .ok i) :
    ∀ e ∈ i.resources, e.2.restarts < twoTo 32 := by
  refine Decode.record_keeps (I := fun i => ∀ e ∈ i.resources, e.2.restarts < twoTo 32) ?_
    (fun _ none => absurd none List.not_mem_nil) read
  simp only [fields, List.forall_mem_cons, List.not_mem_nil, false_implies, implies_true, and_true]
  refine ⟨?_, ?_, ?_, ?_, ?_, ?_, ?_, ?_⟩
  case refine_7 =>
    exact Field.keeps_withDefault
      (fun value _ => Decode.forall_entries Resource.restarts_lt value)
      fun _ _ none => absurd none List.not_mem_nil
  all_goals exact Field.keeps_beside fun _ _ h => h

theorem isPart_monitor :
    Decode.IsPart fields "monitor" Monitor.decode Monitor.blank
      (fun x i => { i with monitor := x }) Instance.monitor where
  found := rfl
  part_set _ _ := rfl
  others := by
    simp only [fields, List.forall_mem_cons, List.not_mem_nil, false_implies, implies_true,
      and_true, true_or, true_and]
    refine ⟨?_, ?_, ?_, ?_, ?_, ?_, ?_⟩ <;>
      exact .inr (Field.beside_withDefault (by decide) fun _ _ => rfl)

/-- **The record of an instance** is what its document holds under `monitor`,
read by itself. -/
theorem monitor_of_decode {doc : Entries Value} {i : Instance}
    (read : Decode.ofValue decode (.map doc) = .ok i) :
    i.monitor = ((Entries.get? doc "monitor").bind
      (fun v => (Decode.ofValue Monitor.decode v).toOption)).getD Monitor.blank := by
  unfold Decode.ofValue decode at read
  rw [toJson, toJsonMembers_eq] at read
  rw [isPart_monitor.record rfl read, Entries.get?_mapValues, Option.bind_map]
  rfl

/-! ## What else a document says -/

theorem isPart_avail :
    Decode.IsPart fields "avail" Named.decode .undef (fun x i => { i with avail := x })
      Instance.avail where
  found := rfl
  part_set _ _ := rfl
  others := by
    simp only [fields, List.forall_mem_cons, List.not_mem_nil, false_implies, implies_true,
      and_true, true_or, true_and]
    refine ⟨?_, ?_, ?_, ?_, ?_, ?_, ?_⟩ <;>
      exact .inr (Field.beside_withDefault (by decide) fun _ _ => rfl)

/-- The status of an instance is what its document holds under `avail`. -/
theorem avail_of_decode {doc : Entries Value} {i : Instance}
    (read : Decode.ofValue decode (.map doc) = .ok i) :
    i.avail = ((Entries.get? doc "avail").bind
      (fun v => (Decode.ofValue Named.decode v).toOption)).getD .undef := by
  unfold Decode.ofValue decode at read
  rw [toJson, toJsonMembers_eq] at read
  rw [isPart_avail.record rfl read, Entries.get?_mapValues, Option.bind_map]
  rfl

/-- A document can be read exactly if each of its members can. -/
theorem decode_isOk_iff {doc : Entries Value} (sorted : Entries.Sorted doc) :
    (∃ i, Decode.ofValue decode (.map doc) = .ok i)
      ↔ ∀ k v, Entries.get? doc k = some v → Decode.Admits fields .value (k, v.toJson) := by
  have nodup : ((Entries.mapValues toJson doc).map Prod.fst).Nodup := by
    have keys : (Entries.mapValues toJson doc).map Prod.fst = Entries.keys doc :=
      List.map_map
    rw [keys]
    exact sorted.imp String.ne_of_lt
  have optional : ∀ f ∈ fields, f.absent.isSome := by
    simp only [fields, List.forall_mem_cons]
    exact ⟨rfl, rfl, rfl, rfl, rfl, rfl, rfl, rfl, nofun⟩
  unfold Decode.ofValue decode
  rw [toJson, toJsonMembers_eq, Decode.record_isOk_iff optional nodup]
  constructor
  · intro each k v there
    exact each (k, v.toJson) (List.mem_map.2 ⟨(k, v), Entries.mem_of_get? there, rfl⟩)
  · intro each e he
    obtain ⟨⟨k, v⟩, mem, rfl⟩ := List.mem_map.1 he
    exact each k v (sorted.get?_of_mem mem)

/-- **Documents that are alike but for the record** say the same of the status, if the
record can be read. -/
theorem decode_of_alike {doc doc' : Entries Value} {i : Instance} (sorted : Entries.Sorted doc)
    (sorted' : Entries.Sorted doc')
    (alike : ∀ k, k ≠ "monitor" → Entries.get? doc' k = Entries.get? doc k)
    (legible : ∀ v, Entries.get? doc "monitor" = some v →
      ∃ m, Decode.ofValue Monitor.decode v = .ok m)
    (read : Decode.ofValue decode (.map doc') = .ok i) :
    ∃ j, Decode.ofValue decode (.map doc) = .ok j ∧ j.avail = i.avail := by
  have members := (decode_isOk_iff sorted').1 ⟨i, read⟩
  obtain ⟨j, found⟩ := (decode_isOk_iff sorted).2 fun k v there => by
    by_cases record : k = "monitor"
    · subst record
      obtain ⟨m, read⟩ := legible v there
      change Monitor.decode .value v.toJson = .ok m at read
      refine ⟨fun i => { i with monitor := m }, ?_⟩
      show Except.map _ (Monitor.decode .value v.toJson) = _
      rw [read]
      rfl
    · exact members k v ((alike k record).trans there)
  refine ⟨j, found, ?_⟩
  rw [avail_of_decode found, avail_of_decode read, alike "avail" (by decide)]

end Instance

end Service

end HaCluster
