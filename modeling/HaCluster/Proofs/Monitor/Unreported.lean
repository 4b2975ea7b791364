import HaCluster.Proofs.Decode.Record
import HaCluster.Proofs.Monitor.Course

/-!
# Services of which nothing was reported

The record that the monitor keeps of an instance lies in the status document of
the instance. Before a driver has reported anything, the document is there for
the record alone. It is read like any other, with the default for everything
that it lacks, so that the instance is seen to be `undef`. The rule that waits
for a first status asks whether there is an instance, and finds one.

So none of the conditions of a start asks for a report. What is left of them
without any is `Awaited`, and a service of which nothing was ever reported is
started as soon as they are met (`neverStarts_iff`).
-/

namespace HaCluster

open Value

/-! ## Documents without a report -/

namespace Decode

/-- Reading a record of which there is one member. -/
theorem record_singleton {σ : Type} {fs : List (Field σ)} {f : Field σ} {k : String}
    (known : fs.find? (fun f => f.name = k) = some f) (name : String) (init : σ) (o : Origin)
    (j : Json) :
    record name fs init o (.object [(k, j)])
      = (f.read o j).bind (fun update => settle [k] fs (update init)) := by
  unfold record members
  dsimp only
  rw [known]
  dsimp only
  cases f.read o j <;> rfl

end Decode

namespace Service.Instance

variable {i : Instance} {doc : Entries Value}

/-- An instance of which only the record of the monitor is known. -/
def Unreported (i : Instance) : Prop := i = { blank with monitor := i.monitor }

theorem Unreported.avail (h : i.Unreported) : i.avail = .undef := by
  rw [h]
  rfl

theorem Unreported.isFrozen (h : i.Unreported) : i.isFrozen = false := by
  rw [h]
  show decide ((0 : Float) < 0) = false
  decide +kernel

/-- What is read off a document that holds at most the record of the monitor. -/
theorem unreported_of_decode (sorted : Entries.Sorted doc) (only : ∀ e ∈ doc, e.1 = "monitor")
    (read : Decode.ofValue decode (.map doc) = .ok i) : i.Unreported := by
  match doc with
  | [] =>
    cases read
    rfl
  | [(k, v)] =>
    cases only (k, v) List.mem_cons_self
    unfold Decode.ofValue decode at read
    rw [Value.toJson] at read
    have found := (Decode.record_singleton (k := "monitor") (by rfl) _ _ _ _).symm.trans read
    obtain ⟨update, field, settled⟩ := Decode.bind_eq_ok found
    obtain ⟨m, -, rfl⟩ := Decode.map_eq_ok (x := Monitor.decode .value v.toJson) field
    cases settled
    rfl
  | e :: e' :: rest =>
    have lt := (Entries.sorted_cons.1 sorted).1 e' List.mem_cons_self
    rw [only e' (List.mem_cons_of_mem e List.mem_cons_self)] at lt
    have same := only e List.mem_cons_self
    exact absurd lt (same ▸ String.lt_irrefl _)

end Service.Instance

namespace Node.Blob

variable {p q : String}

/-- The document of a service holds at most the record of the monitor. -/
def unreported (service p : String) (doc : Entries Value) : Prop :=
  p = service → ∀ e ∈ doc, e.1 = "monitor"

theorem rule_unreported (service : String) : Rule (unreported service) where
  empty _ _ := nofun
  monitor x only same e he := by
    rcases Entries.mem_of_mem_insert he with rfl | he
    · rfl
    · exact only same e he

/-- What is reported of the other services may be taken in. -/
theorem accepts_unreported (ne : p ≠ q) (new : Entries Value) : Accepts (unreported q) p new where
  erase _ _ same := absurd same ne
  insert _ _ same := absurd same ne

end Node.Blob

namespace Daemon

variable {d : Daemon} {node service : String} {at_ : Float} {live declared : List String}

/-- In its own picture of the cluster the node sees no report of the service. -/
theorem Sound.unreported_of_instance? (h : Sound (Node.Blob.unreported service) node d)
    {i : Service.Instance}
    (seen : (d.viewOf at_ live declared).instance? d.nodeName service = some i) :
    i.Unreported := by
  obtain ⟨data, st, -, local_, instances, docs, -⟩ := h.localData? at_ live declared
  unfold View.instance? at seen
  rw [trusted?_viewOf, local_, Option.bind_some, instances] at seen
  obtain ⟨⟨p, v⟩, he, decoded⟩ := List.mem_filterMap.1 (Entries.mem_of_get? seen)
  obtain ⟨j, read, same⟩ := Option.map_eq_some_iff.1 decoded
  cases same
  obtain ⟨doc, stored, sorted, only⟩ := docs _ he
  cases stored
  exact Service.Instance.unreported_of_decode sorted (only rfl) (Decode.eq_ok_of_toOption read)

end Daemon

/-! ## What is left of a start -/

namespace Service.Situation

variable {s : Situation}

/-- A start is due as far as it can be said without a report: it is expected,
nothing on the node forbids it, and the record has been `ready` for long
enough. -/
structure Awaited (s : Situation) : Prop where
  idle : s.inFlight = none
  ready : s.monitor.state = .ready
  waited : ¬ s.waited < s.readyPeriod
  /-- The node is not being emptied of this service. -/
  kept : s.nodeState ≠ .shutting
    ∧ (s.nodeState = .draining ∨ s.nodeState = .drained → s.config.alwaysOn)
  expected : s.monitor.globalExpect = none ∨ s.monitor.globalExpect = some .started
  thawed : s.nodeFrozen = false
  wanted : s.globalStart ∨ s.config.orchestration = .ha
  fresh : s.startedHere = false

/-- The record of the monitor is that of the instance, if there is one. -/
def Recorded (s : Situation) : Prop :=
  s.monitor = (s.instance?.map Instance.monitor).getD Monitor.blank

/-- **Without a report a start is due as with one.** The record that is `ready`
is an instance to the rule that waits for a first status. -/
theorem due_iff_awaited (recorded : s.Recorded)
    (unreported : ∀ i, s.instance? = some i → i.Unreported) : s.Due ↔ s.Awaited := by
  constructor
  · rintro ⟨idle, ready, waited, kept, expected, thawed, wanted, fresh, -⟩
    exact ⟨idle, ready, waited, kept, expected, thawed.1, wanted, fresh⟩
  · rintro ⟨idle, ready, waited, kept, expected, thawed, wanted, fresh⟩
    cases seen : s.instance? with
    | none =>
      -- a record that is kept nowhere is blank, and so not `ready`
      unfold Recorded at recorded
      rw [recorded, seen] at ready
      cases ready
    | some i =>
      have nothing := unreported i seen
      refine ⟨idle, ready, waited, kept, expected, ⟨thawed, ?_⟩, wanted, fresh, i, seen, ?_, ?_⟩
      · unfold instanceFrozen
        rw [seen]
        exact nothing.isFrozen
      · rw [nothing.avail]
        rfl
      · rw [nothing.avail]
        exact nofun

end Service.Situation

/-! ## Runs without a report -/

/-- A request that neither speaks for a node as its peer nor reports anything of
a service. -/
def Request.Unposted (service node : String) (r : Request) : Prop :=
  r.Foreign node ∧ ∀ doc, r ≠ .postStatus service doc

namespace Monitor

variable {W : Type} [World W] {p node : String} {s : Monitor W} {t : Turn W} {ts : List (Turn W)}

/-- The round takes in no document of a service. -/
def Turn.Silent (p : String) (t : Turn W) : Prop :=
  ∀ r ∈ t.taken, r.service = p → r.reading.toOption.join.isNone

/-- No round starts the service as a whole. -/
def NeverStarts (p : String) (ts : List (Turn W)) : Prop :=
  ∀ t ∈ ts, Action.whole p .start ∉ t.launched

/-- On every run of a monitor on which neither a driver nor a client reports
anything of the service, it is never started. -/
def WaitsForReport (W : Type) [World W] (p : String) : Prop :=
  ∀ (settings : Daemon.Settings) (file : Option String) (start : Float) (w s : _)
    (ts : List (Turn W)),
    Course (Request.Unposted p settings.nodeName) (new (Daemon.start settings file start) w) ts s →
      (∀ t ∈ ts, t.Silent p) → NeverStarts p ts

theorem Turn.Silent.accepts (silent : t.Silent p) : t.Accepts (Node.Blob.unreported p) := by
  rintro r hr ⟨doc, reading⟩ new
  refine Node.Blob.accepts_unreported (fun same => ?_) new
  have none := silent r hr same
  rw [reading] at none
  cases none

omit [World W] in
theorem admitted_unposted (p node : String) :
    Admitted (Node.Blob.unreported p) node (Request.Unposted p node) where
  foreign _ made := made.1
  posted r made q new posted := by
    refine Node.Blob.accepts_unreported (fun same => ?_) new
    exact made.2 (.map new) (same ▸ posted)

/-- In a situation in which a round decides about the service no report is
seen. -/
theorem Sound.situation_unreported (h : Sound (Node.Blob.unreported p) node t.before)
    (silent : t.Silent p) {x : Service.Situation} (found : t.situation? p = some x) :
    x.path = p ∧ x.Recorded ∧ ∀ i, x.instance? = some i → i.Unreported := by
  obtain ⟨o, u, -, prepared, sound, -⟩ := h.turn (Node.Blob.rule_unreported p) silent.accepts
  unfold Turn.situation? at found
  rw [prepared] at found
  dsimp only at found
  split at found
  · obtain ⟨config, -, rfl⟩ := Option.map_eq_some_iff.1 found
    exact ⟨rfl, rfl, fun i seen => sound.daemon.unreported_of_instance? seen⟩
  · cases found

/-- **What keeps a service from being started without a report.** Nothing but
what keeps any service from being started: that the start is not awaited, that
something holds it back, or that the launcher refuses it. That nothing was ever
reported does not. -/
theorem neverStarts_iff {settings : Daemon.Settings} {file : Option String} {start : Float} {w : W}
    (run : Course (Request.Unposted p settings.nodeName)
      (new (Daemon.start settings file start) w) ts s)
    (silent : ∀ t ∈ ts, t.Silent p) :
    NeverStarts p ts ↔ ∀ t ∈ ts, ∀ x, t.situation? p = some x →
      ¬ x.Awaited ∨ x.heldBy false ≠ none ∨ Event.done (.whole p .start) none ∈ t.events := by
  have rule := Node.Blob.rule_unreported p
  have accepts : ∀ t ∈ ts, t.Accepts (Node.Blob.unreported p) := fun t ht => (silent t ht).accepts
  have before := run.before rule (sound_new _ settings file start w) (admitted_unposted p _) accepts
  refine forall₂_congr fun t ht => ?_
  have sound := before t ht
  have starts {x : Service.Situation} (found : t.situation? p = some x) :
      x.decide.action = some (.whole p .start) ↔ x.Awaited ∧ x.heldBy false = none := by
    obtain ⟨rfl, recorded, unreported⟩ := sound.situation_unreported (silent t ht) found
    rw [Service.Situation.action_decide_eq_start_iff, Service.Situation.starts_iff,
      Service.Situation.due_iff_awaited recorded unreported]
  rw [sound.mem_launched_iff rule (accepts t ht)]
  constructor
  · intro never x found
    by_contra free
    simp only [not_or, not_not] at free
    exact never ⟨⟨x, found, (starts found).2 ⟨free.1, free.2.1⟩⟩, free.2.2⟩
  · rintro kept ⟨⟨x, found, action⟩, unrefused⟩
    obtain ⟨awaited, free⟩ := (starts found).1 action
    rcases kept x found with h | h | h
    · exact h awaited
    · exact h free
    · exact unrefused h

open Script

/-- No driver reports anything of `svc`. -/
theorem silent_svc : ∀ t ∈ (turns [0, 1000, 2000, 8000]).1, t.Silent "svc" := by
  unfold Turn.Silent
  decide +kernel

theorem course_svc :
    Course (Request.Unposted "svc" settings.nodeName) fresh (turns [0, 1000, 2000, 8000]).1
      (turns [0, 1000, 2000, 8000]).2 := by
  refine course_turns ⟨fun _ _ peer => ?_, fun _ posted => ?_⟩ _
  · cases peer
  · cases posted

theorem neverStarts_svc_iff :
    (∀ t ∈ (turns [0, 1000, 2000, 8000]).1, t.Silent "svc")
      ∧ (NeverStarts "svc" (turns [0, 1000, 2000, 8000]).1
        ↔ ∀ t ∈ (turns [0, 1000, 2000, 8000]).1, ∀ x, t.situation? "svc" = some x →
          ¬ x.Awaited ∨ x.heldBy false ≠ none
            ∨ Event.done (.whole "svc" .start) none ∈ t.events) :=
  ⟨silent_svc, neverStarts_iff course_svc silent_svc⟩

/-- The second of these rounds makes the record, the third finds it and is
`ready`, and the fourth starts the service. -/
theorem not_waitsForReport : ¬ WaitsForReport Simulation.World "svc" := by
  intro waits
  have never := waits _ _ _ _ _ _ course_svc silent_svc
  revert never
  unfold NeverStarts
  decide +kernel

end Monitor

end HaCluster
