import HaCluster.Node.Blob
import HaCluster.Proofs.Decode.Record
import HaCluster.Proofs.Store.Edits
import HaCluster.Replication.PeerTable
import HaCluster.Service.Update

/-!
# What a node queues of its edits

Whatever a node edits of its tree, it does it by storing single values and removing
single nodes, and so it queues what the edits mean to its peers (`Store.Recorded`).
That takes values whose mappings are sorted. The records that a node writes are: the
retries of a service are read into a sorted mapping, wherever they are read from, and
what becomes of them later keeps it sorted (`sorted_retries`).
-/

namespace HaCluster

open Value

/-! ## What is written is sorted -/

namespace Value

theorem sorted_real (x : Float) : (real x).Sorted := by
  unfold real
  split <;> exact trivial

/-- A number that was written. -/
theorem sorted_of_ofNat {n : Nat} {v : Value} (h : ofNat n = v) : v.Sorted := by
  have scalar : ofNat n = .int (Int64.ofInt n) ∨ ofNat n = .float (Float.ofInt n) := by
    unfold ofNat ofNumber
    exact ite_eq_or_eq _ _ _
  rw [h] at scalar
  rcases scalar with rfl | rfl <;> exact trivial

theorem sorted_named {α : Type} [Named α] (x : α) : (Named.toValue x).Sorted := trivial

theorem sorted_ofOption {α : Type} [Named α] (x : Option α) :
    (ofOption Named.toValue x).Sorted := by
  cases x with
  | none => trivial
  | some x => exact sorted_named x

/-- A mapping of sorted values is sorted if its keys are. -/
theorem sorted_map {m : Entries Value} (keys : Entries.Sorted m) (each : ∀ e ∈ m, e.2.Sorted) :
    (Value.map m).Sorted :=
  everywhere_map.2 ⟨keys, each⟩

end Value

/-- **A mapping that is read is sorted**, in whatever order it was written. -/
theorem Decode.sorted_entries {α : Type} {d : Decoder α} {o : Origin} {j : Json} {m : Entries α}
    (read : entries d o j = .ok m) : Entries.Sorted m :=
  entries_keeps .nil (fun {_ key _ x} _ h => h.insert key x) read

theorem Node.Monitor.sorted_toValue (m : Node.Monitor) : m.toValue.Sorted := by
  refine sorted_map (show List.Pairwise (· < ·)
    ["global_expect", "local_expect", "status", "status_updated"] by decide) ?_
  simp only [List.forall_mem_cons, List.not_mem_nil, false_implies, implies_true, and_true]
  exact ⟨sorted_ofOption _, sorted_ofOption _, sorted_named _, sorted_real _⟩

namespace Service.Monitor

variable {m : Monitor}

theorem sorted_toValue (h : Entries.Sorted m.retries) : m.toValue.Sorted := by
  refine sorted_map (show List.Pairwise (· < ·)
    ["global_expect", "local_expect", "restart", "status", "status_updated"] by decide) ?_
  simp only [List.forall_mem_cons, List.not_mem_nil, false_implies, implies_true, and_true]
  refine ⟨sorted_ofOption _, sorted_ofOption _, ?_, sorted_named _, sorted_real _⟩
  refine sorted_map (Entries.sorted_mapValues.2 h) fun e he => ?_
  obtain ⟨⟨k, n⟩, -, rfl⟩ := List.mem_map.1 he
  dsimp only
  generalize written : Value.ofNat n = v
  exact sorted_of_ofNat written

/-- The retries of a record that is read are sorted. -/
theorem sorted_of_decode {o : Origin} {j : Json} (read : decode o j = .ok m) :
    Entries.Sorted m.retries := by
  refine Decode.record_keeps (I := fun m : Monitor => Entries.Sorted m.retries) ?_
    Entries.Sorted.nil read
  simp only [fields, List.forall_mem_cons, List.not_mem_nil, false_implies, implies_true, and_true]
  refine ⟨?_, ?_, ?_, ?_, ?_⟩
  case refine_5 =>
    exact Field.keeps_withDefault (fun value _ => Decode.sorted_entries value) fun _ => .nil
  all_goals exact Field.keeps_beside fun _ _ h => h

theorem retries_dated (next current : Monitor) (at_ : Float) :
    (next.dated current at_).retries = next.retries := by
  unfold dated
  split <;> rfl

theorem sorted_apply (u : Service.Update) (h : Entries.Sorted m.retries) :
    Entries.Sorted (u.apply m).retries := by
  unfold Service.Update.apply
  dsimp only
  split
  · exact .nil
  · exact h

end Service.Monitor

namespace Node.Blob

open Store Mutation

variable {node p : String} {at_ : Float}

/-- **The retries in a record** are sorted, wherever it comes from. -/
theorem sorted_retries (s : Store) (node p : String) :
    Entries.Sorted (instanceMonitor s node p).retries := by
  unfold instanceMonitor instanceMonitor?
  cases (s.get (Layout.serviceMonitor node p)).toOption with
  | none => exact .nil
  | some x =>
    rw [Option.bind_some]
    cases read : Decode.ofValue Service.Monitor.decode x with
    | error e => exact .nil
    | ok m => exact Service.Monitor.sorted_of_decode read

/-! ## Edits -/

theorem recorded_updateMonitor (node : String) (at_ : Float) (edit : Monitor → Monitor) :
    Within Recorded (updateMonitor node at_ edit) := by
  exact kept_recorded.within_setUnless false true fun s => Monitor.sorted_toValue _

theorem recorded_setFrozen (node : String) (frozen : Bool) (at_ : Float) :
    Within Recorded (setFrozen node frozen at_) := by
  exact kept_recorded.within_setUnless () () fun s => trivial

theorem recorded_bind {α β : Type} {m : Mutation α} {f : α → Mutation β}
    (hm : Within Recorded m) (hf : ∀ a, Within Recorded (f a)) : Within Recorded (m >>= f) :=
  within_bind (R := Recorded) kept_recorded.trans hm hf

theorem recorded_pure {α : Type} (a : α) : Within Recorded (pure a : Mutation α) :=
  within_pure kept_recorded.refl a

theorem recorded_make (q : Path) : Within Recorded (Store.setIfAbsent q Value.empty) :=
  kept_recorded.within_setIfAbsent kept_recorded.empty

theorem recorded_stamp (node : String) (running : Nat) (at_ : Float) :
    Within Recorded (stamp node running at_) := by
  have stats : (Value.map [("procs", .ofNat running), ("tick", .float at_)]).Sorted := by
    generalize written : Value.ofNat running = v
    refine sorted_map (show List.Pairwise (· < ·) ["procs", "tick"] by decide) ?_
    simp only [List.forall_mem_cons, List.not_mem_nil, false_implies, implies_true, and_true]
    exact ⟨sorted_of_ofNat written, trivial⟩
  exact recorded_bind (kept_recorded.within_set stats) fun _ =>
    recorded_bind (kept_recorded.within_set trivial) fun _ => recorded_pure ()

theorem recorded_ensureInstance (node p : String) : Within Recorded (ensureInstance node p) :=
  recorded_bind (recorded_make _) fun _ => recorded_bind (recorded_make _) fun _ =>
    recorded_bind (recorded_make _) fun _ => recorded_pure ()

/-- A change of the record of a service, if it leaves the retries sorted. -/
theorem recorded_updateInstanceMonitor (node p : String) (at_ : Float)
    {edit : Service.Monitor → Service.Monitor}
    (sorted : ∀ m, Entries.Sorted m.retries → Entries.Sorted (edit m).retries) :
    Within Recorded (updateInstanceMonitor node p at_ edit) := by
  refine recorded_bind (recorded_ensureInstance node p) fun _ => ?_
  refine kept_recorded.within_setUnless false true fun s => Service.Monitor.sorted_toValue ?_
  rw [Service.Monitor.retries_dated]
  exact sorted _ (sorted_retries s node p)

theorem recorded_dropInstance (node p : String) : Within Recorded (dropInstance node p) :=
  recorded_bind kept_recorded.within_unsetIfPresent fun _ => recorded_pure ()

theorem recorded_dropOldKeys (node p : String) (doc : Entries Value) (keys : List String) :
    Within Recorded (dropOldKeys node p doc keys) := by
  induction keys with
  | nil => exact recorded_pure ()
  | cons k keys ih =>
    unfold dropOldKeys
    dsimp only
    split
    · exact recorded_bind kept_recorded.within_unset fun _ => ih
    · exact ih

/-- A status document that comes in, if it is sorted. -/
theorem recorded_replaceStatus (node p : String) {doc : Entries Value}
    (sorted : ∀ e ∈ doc, e.2.Sorted) : Within Recorded (replaceStatus node p doc) := by
  refine recorded_bind (recorded_ensureInstance node p) fun _ s => ?_
  refine recorded_bind (recorded_dropOldKeys node p doc _) (fun _ => ?_) s
  exact recorded_bind
    (kept_recorded.within_merge fun e he => sorted e (Entries.mem_of_mem_erase he))
    fun _ => recorded_pure ()

theorem recorded_publishConfig (node p : String) {config : Value} (sorted : config.Sorted) :
    Within Recorded (publishConfig node p config) :=
  recorded_bind (recorded_make _) fun _ => recorded_bind (recorded_make _) fun _ =>
    recorded_bind (kept_recorded.within_set sorted) fun _ => recorded_pure ()

theorem recorded_withdrawConfig (node p : String) : Within Recorded (withdrawConfig node p) :=
  recorded_bind kept_recorded.within_unsetIfPresent fun _ => recorded_pure ()

/-- The copy of a peer that is stored as a whole, if it is sorted. -/
theorem recorded_storeCopy (peer : String) {blob : Value} (sorted : blob.Sorted) :
    Within Recorded (PeerTable.storeCopy peer blob) :=
  recorded_bind (recorded_make _) fun _ =>
    recorded_bind (kept_recorded.within_set sorted) fun _ => recorded_pure ()

end Node.Blob

end HaCluster
