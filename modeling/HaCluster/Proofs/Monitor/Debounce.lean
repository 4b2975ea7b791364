import HaCluster.Proofs.Clock.Difference
import HaCluster.Proofs.Monitor.Ready

/-!
# Starts are debounced

Before a service is started it is `ready` for a while, so that a condition that
comes and goes starts nothing. The while is counted from the date of the record,
which the monitor writes when the record becomes `ready`, and which requests,
statuses and actions have to leave alone as long as it is.

A history is a run with the times at which its stages happen. On every history on
which nobody speaks for the node as its peer, the date of a record that is ready is
the time of the stage that made it so (`readySince?`), whatever is requested,
reported and launched. So a start is tried only after the ready period, and not again before
the record has become ready once more (`debounced`). A message in the name of the
node brings a record with any date, and with it a start at once
(`not_debounces`).
-/

namespace HaCluster.Monitor

open Value

variable {W : Type} {node p : String} {s s' s'' : Monitor W} {u : Float}
  {allowed : Request → Prop}

/-! ## Histories -/

/-- A stage of a history: a round, a request, or anything else that happens
between two rounds. -/
inductive Stage (W : Type) where
  | round (t : Turn W)
  | request (now : Moment) (r : Request) (before : Monitor W)
  | aside (before after : Monitor W)

variable [World W]

namespace Stage

def before : Stage W → Monitor W
  | .round t => t.before
  | .request _ _ s => s
  | .aside s _ => s

def after : Stage W → Monitor W
  | .round t => t.after
  | .request now r s => { s with daemon := (Daemon.serve now r).after s.daemon }
  | .aside _ s => s

/-- When a stage happens, if it has a time. -/
def time? : Stage W → Option Float
  | .round t => some t.at_
  | .request now _ _ => some now.wall
  | .aside _ _ => none

/-- A stage can happen, if only some requests are made. -/
def Allowed (allowed : Request → Prop) : Stage W → Prop
  | .round _ => True
  | .request _ r _ => allowed r
  | .aside s s' => s'.daemon.nodeName = s.daemon.nodeName
    ∧ s'.daemon.store.data = s.daemon.store.data ∧ s'.running = s.running

/-- The records of a service that a stage goes through, a round also with the one
that it finds when the services come. -/
def records (node p : String) (e : Stage W) : List Service.Monitor :=
  match e with
  | .round t => [record node p t.before, t.found p, record node p t.after]
  | .request .. | .aside .. => [record node p e.before, record node p e.after]

/-- Since when a record is ready after a stage, if one knows it before: since then,
or since the stage if it was not ready all the time. -/
def since (node p : String) (since? : Option Float) (e : Stage W) : Option Float :=
  if (record node p e.after).state ≠ .ready then none
  else if ∀ m ∈ e.records node p, m.state = .ready then since?
  else e.time?

end Stage

/-- A run with what happens on it, oldest first. -/
inductive History (allowed : Request → Prop) : Monitor W → List (Stage W) → Monitor W → Prop
  | refl (s : Monitor W) : History allowed s [] s
  | stage {s : Monitor W} {es : List (Stage W)} (e : Stage W) (run : History allowed s es e.before)
    (possible : e.Allowed allowed) : History allowed s (es ++ [e]) e.after

theorem History.trans {es es' : List (Stage W)} (run : History allowed s es s')
    (rest : History allowed s' es' s'') : History allowed s (es ++ es') s'' := by
  induction rest with
  | refl =>
    rw [List.append_nil]
    exact run
  | stage e _ possible ih =>
    rw [← List.append_assoc]
    exact ih.stage e possible

/-- A history is one on which more may be requested. -/
theorem History.mono {allowed allowed' : Request → Prop} (run : History allowed s es s')
    (weaker : ∀ r, allowed r → allowed' r) : History allowed' s es s' := by
  induction run with
  | refl => exact .refl _
  | stage e _ possible ih =>
    refine ih.stage e ?_
    cases e with
    | round t => trivial
    | request now r s => exact weaker r possible
    | aside s s' => exact possible

/-- The rounds of a history. -/
def turnsOf (es : List (Stage W)) : List (Turn W) :=
  es.filterMap fun
    | .round t => some t
    | .request .. | .aside .. => none

omit [World W] in
theorem turnsOf_append (es : List (Stage W)) (e : Stage W) :
    turnsOf (es ++ [e]) = turnsOf es ++ turnsOf [e] := List.filterMap_append

/-- A history is a run. -/
theorem History.course {es : List (Stage W)} (run : History allowed s es s') :
    Course allowed s (turnsOf es) s' := by
  induction run with
  | refl => exact .refl s
  | stage e _ possible ih =>
    unfold turnsOf
    rw [List.filterMap_append]
    cases e with
    | round t => exact ih.round t
    | request now r s =>
      rw [List.filterMap_cons_none rfl, List.filterMap_nil, List.append_nil]
      exact ih.outside (.request now possible)
    | aside s s' =>
      rw [List.filterMap_cons_none rfl, List.filterMap_nil, List.append_nil]
      exact ih.outside (.aside possible.1 possible.2.1 possible.2.2)

theorem History.sound {es : List (Stage W)} (run : History (Request.Foreign node) s es s')
    (start : Sound Node.Blob.anything node s) : Sound Node.Blob.anything node s' :=
  run.course.sound Node.Blob.rule_anything start
    ⟨fun _ made => made, fun _ _ q new _ => Node.Blob.accepts_anything q new⟩
    fun t _ => t.accepts_anything

/-- The stages of a history happen at finite times, one not before the other. -/
structure Timed (es : List (Stage W)) : Prop where
  finite : ∀ u ∈ es.filterMap Stage.time?, u.isFinite = true
  ordered : (es.filterMap Stage.time?).Pairwise (· ≤ ·)

instance (es : List (Stage W)) : Decidable (Timed es) :=
  decidable_of_iff ((∀ u ∈ es.filterMap Stage.time?, u.isFinite = true)
    ∧ (es.filterMap Stage.time?).Pairwise (· ≤ ·))
    ⟨fun h => ⟨h.1, h.2⟩, fun h => ⟨h.finite, h.ordered⟩⟩

omit [World W] in
theorem Timed.finite_of_mem {es : List (Stage W)} (h : Timed es) :
    ∀ e ∈ es, ∀ u, e.time? = some u → u.isFinite = true :=
  fun e he u time => h.finite u (List.mem_filterMap.2 ⟨e, he, time⟩)

omit [World W] in
/-- What comes later does not happen earlier. -/
theorem Timed.le {past rest : List (Stage W)} {e f : Stage W} {v : Float}
    (h : Timed (past ++ e :: rest)) (time : e.time? = some v) (mem : f ∈ rest)
    (time' : f.time? = some u) : v ≤ u := by
  have ordered := h.ordered
  rw [List.filterMap_append, List.filterMap_cons_some time] at ordered
  have later := (List.pairwise_cons.1 (List.pairwise_append.1 ordered).2.1).1
  exact later u (List.mem_filterMap.2 ⟨f, mem, time'⟩)

/-- Since when a record is ready after some stages. -/
def readySince? (node p : String) (es : List (Stage W)) : Option Float :=
  es.foldl (Stage.since node p) none

variable {es es' : List (Stage W)} {e : Stage W}

theorem readySince?_append (es es' : List (Stage W)) : readySince? node p (es ++ es')
    = es'.foldl (Stage.since node p) (readySince? node p es) :=
  List.foldl_append

/-- A record is ready since the time of a stage. -/
theorem exists_of_readySince? (h : readySince? node p es = some u) :
    ∃ e ∈ es, e.time? = some u := by
  induction es using List.reverseRecOn with
  | nil => cases h
  | append_singleton es e ih =>
    rw [readySince?_append] at h
    change e.since node p _ = _ at h
    unfold Stage.since at h
    split_ifs at h with unready kept
    · obtain ⟨f, hf, time⟩ := ih h
      exact ⟨f, List.mem_append_left _ hf, time⟩
    · exact ⟨e, List.mem_append_right _ List.mem_cons_self, h⟩

/-- A record that was not ready after a stage has become so later. -/
theorem readySince?_after (es : List (Stage W)) (e : Stage W) (es' : List (Stage W))
    (unready : (record node p e.after).state ≠ .ready) :
    readySince? node p (es ++ e :: es') = readySince? node p es' := by
  rw [readySince?_append, List.foldl_cons, Stage.since, if_pos unready]
  rfl

/-! ## One stage -/

theorem Stage.before_mem_records (e : Stage W) : record node p e.before ∈ e.records node p := by
  cases e <;> exact List.mem_cons_self

/-- **A record that is ready after a stage** was so all the time, and keeps its
date, or became so in the stage, and is dated with it. -/
theorem Stage.dated {e : Stage W} (h : Sound Node.Blob.anything node e.before)
    (possible : e.Allowed (Request.Foreign node))
    (finite : ∀ u, e.time? = some u → u.isFinite = true)
    (dated : (record node p e.before).state = .ready →
      (record node p e.before).stateSince.isFinite = true)
    (ready : (record node p e.after).state = .ready) :
    if ∀ m ∈ e.records node p, m.state = .ready
      then (record node p e.after).stateSince = (record node p e.before).stateSince
      else e.time? = some (record node p e.after).stateSince := by
  cases e with
  | round t =>
    obtain ⟨cleared, readied⟩ := h.readied (finite t.at_ rfl) dated
    have since := readied ready
    by_cases found : (t.found p).state = .ready
    · have same := cleared found
      rw [if_pos found, same] at since
      rw [same] at found
      rw [if_pos]
      · exact since
      · simp [records, same, found, show (record node p t.after).state = .ready from ready]
    · rw [if_neg found] at since
      rw [if_neg fun all => found (all _ (.tail _ (.head _)))]
      exact congrArg some since.symm
  | request now r s =>
    have since : (record node p (Stage.request now r s).after).stateSince
        = if (record node p s).state = .ready then (record node p s).stateSince else now.wall :=
      Daemon.readyFrom_serve Node.Blob.rule_anything h.daemon now possible (finite now.wall rfl)
        dated ready
    by_cases before : (record node p s).state = .ready
    · rw [if_pos before] at since
      rw [if_pos]
      · exact since
      · simp [records, ready, show (record node p (Stage.request now r s).before).state = .ready
          from before]
    · rw [if_neg before] at since
      rw [if_neg fun all => before (all _ (.head _))]
      exact congrArg some since.symm
  | aside s s' =>
    have same : record node p (Stage.aside s s').after = record node p (Stage.aside s s').before := by
      unfold record
      rw [Node.Blob.instanceMonitor_eq, Node.Blob.instanceMonitor_eq,
        show (Stage.aside s s').after.daemon.store.data = (Stage.aside s s').before.daemon.store.data
          from possible.2.1]
    rw [if_pos]
    · rw [same]
    · simp [records, ← same, ready]

theorem Stage.statuses {e : Stage W} (name : e.before.daemon.nodeName = node)
    (mapping : HasMapping e.before.daemon.store.data (Node.Blob.statuses node))
    (possible : e.Allowed (Request.Foreign node)) :
    HasMapping e.after.daemon.store.data (Node.Blob.statuses node) := by
  have frame := Node.Blob.frame_statuses node
  cases e with
  | round t =>
    have since := retains_round frame (.of_frame frame trivial t.at_) (fun _ => trivial)
      (fun _ ne => ne) t.host t.now t.before (Daemon.since_refl frame name)
    rw [t.step_after] at since
    exact since.store.data mapping
  | request now r s =>
    have since := Daemon.since_serve frame (.of_frame frame trivial now.wall)
      (fun _ _ _ => trivial) possible s.daemon (Daemon.since_refl frame name)
    exact since.store.data mapping
  | aside s s' =>
    change HasMapping s'.daemon.store.data _
    rw [possible.2.1]
    exact mapping

/-! ## Dates -/

/-- What a history keeps: where the record is ready, its date is when it became
so. -/
structure Tracked (node p : String) (es : List (Stage W)) (s : Monitor W) : Prop where
  sound : Sound Node.Blob.anything node s
  statuses : HasMapping s.daemon.store.data (Node.Blob.statuses node)
  since : (record node p s).state = .ready →
    readySince? node p es = some (record node p s).stateSince

/-- The date of a record that is ready is finite. -/
theorem Tracked.dated (h : Tracked node p es s)
    (finite : ∀ e ∈ es, ∀ u, e.time? = some u → u.isFinite = true)
    (ready : (record node p s).state = .ready) : (record node p s).stateSince.isFinite = true := by
  obtain ⟨e, he, time⟩ := exists_of_readySince? (h.since ready)
  exact finite e he _ time

/-- **Along a history** a record that is ready is dated with the stage that made it
so. -/
theorem History.tracked (run : History (Request.Foreign node) s es s')
    (finite : ∀ e ∈ es, ∀ u, e.time? = some u → u.isFinite = true) (start : Tracked node p [] s) :
    Tracked node p es s' := by
  induction run with
  | refl => exact start
  | @stage es e run possible ih =>
    have earlier := fun f hf => finite f (List.mem_append_left _ hf)
    have before := ih earlier
    refine ⟨(run.stage e possible).sound start.sound,
      Stage.statuses before.sound.daemon.name before.statuses possible, fun ready => ?_⟩
    have date := Stage.dated before.sound possible
      (finite e (List.mem_append_right _ List.mem_cons_self)) (before.dated earlier) ready
    rw [readySince?_append]
    show e.since node p _ = _
    rw [Stage.since, if_neg (not_not.2 ready)]
    split_ifs at date ⊢ with kept
    · rw [date]
      exact before.since (kept _ e.before_mem_records)
    · exact date

/-- A history up to one of its stages. -/
theorem History.upTo {es' : List (Stage W)} {e : Stage W}
    (run : History allowed s (es ++ e :: es') s') : History allowed s es e.before := by
  generalize whole : es ++ e :: es' = l at run
  induction run generalizing es' with
  | refl => cases es <;> cases whole
  | stage _ run _ ih =>
    rcases last_or_before whole with ⟨rfl, rfl⟩ | ⟨_, before⟩
    · exact run
    · exact ih before

/-! ## Attempts -/

/-- The starts of a service are debounced on a history: one is tried only when the
service has been ready for the ready period, and another one only when it has
become ready again in between, and so the ready period later. -/
structure Debounced (node p : String) (es : List (Stage W)) : Prop where
  waited : ∀ past t future, es = past ++ .round t :: future → t.tries (.whole p .start) →
    (t.found p).state = .ready
      ∧ ∃ u, readySince? node p past = some u ∧ ¬ t.at_ - u < t.readyPeriod
  apart : ∀ past t between t' future, es = past ++ .round t :: (between ++ .round t' :: future) →
    t.tries (.whole p .start) → t'.tries (.whole p .start) →
    (record node p t.after).state ≠ .ready ∧ (readySince? node p between).isSome
      ∧ ¬ t'.at_ - t.at_ < t'.readyPeriod

/-- **A start is tried** when the record has been ready for the ready period, and
then it is not ready any more. -/
theorem History.started (run : History (Request.Foreign node) s es s') (timed : Timed es)
    (start : Tracked node p [] s) {past future : List (Stage W)} {t : Turn W}
    (here : es = past ++ .round t :: future) (tries : t.tries (.whole p .start)) :
    (t.found p).state = .ready
      ∧ (∃ u, readySince? node p past = some u ∧ ¬ t.at_ - u < t.readyPeriod)
      ∧ (record node p t.after).state ≠ .ready := by
  subst here
  have finite := timed.finite_of_mem
  have earlier := fun e he => finite e (List.mem_append_left _ he)
  have finite_t : t.at_.isFinite = true :=
    finite (.round t) (List.mem_append_right _ List.mem_cons_self) _ rfl
  have tracked : Tracked node p past t.before := run.upTo.tracked earlier start
  obtain ⟨ready, waited, unready⟩ := tracked.sound.started tracked.statuses tries
  obtain ⟨cleared, -⟩ := tracked.sound.readied finite_t (tracked.dated earlier)
  have same := cleared ready
  refine ⟨ready, ⟨_, tracked.since (same ▸ ready), ?_⟩, unready⟩
  rw [← same]
  exact waited

/-- **Starts are debounced.** Whatever is requested, as long as nobody speaks for
the node as its peer, and whatever is reported and comes of the actions: a start
is tried only of a service that has been ready for the ready period, and it is
tried again only after the service has become ready once more, so that the ready
period lies between two attempts. -/
theorem debounced {settings : Daemon.Settings} {file : Option String} {start : Float} {w : W}
    (run : History (Request.Foreign settings.nodeName) (new (Daemon.start settings file start) w)
      es s)
    (timed : Timed es) : Debounced settings.nodeName p es := by
  have fresh : Tracked settings.nodeName p [] (new (Daemon.start settings file start) w) := by
    refine ⟨sound_new _ settings file start w, statuses_new settings file start w, fun ready => ?_⟩
    rw [record_new] at ready
    cases ready
  refine ⟨fun past t future here tries => ?_, fun past t between t' future here tries tries' => ?_⟩
  · obtain ⟨ready, waited, -⟩ := run.started timed fresh here tries
    exact ⟨ready, waited⟩
  · obtain ⟨-, -, unready⟩ := run.started timed fresh here tries
    have later : es = (past ++ .round t :: between) ++ .round t' :: future := by
      rw [here, List.append_assoc, List.cons_append]
    obtain ⟨-, ⟨u, since, waited⟩, -⟩ := run.started timed fresh later tries'
    rw [readySince?_after past (.round t) between unready] at since
    -- the record became ready in a stage after the first attempt
    obtain ⟨e, he, time⟩ := exists_of_readySince? since
    refine ⟨unready, Option.isSome_iff_exists.2 ⟨u, since⟩, fun soon => waited ?_⟩
    subst here
    have finite := timed.finite_of_mem
    have le : t.at_ ≤ u := timed.le rfl (List.mem_append_left _ he) time
    have mem : e ∈ past ++ .round t :: (between ++ .round t' :: future) :=
      List.mem_append_right _ (.tail _ (List.mem_append_left _ he))
    have mem' : Stage.round t' ∈ past ++ .round t :: (between ++ .round t' :: future) :=
      List.mem_append_right _ (.tail _ (List.mem_append_right _ (.head _)))
    exact Clock.sub_lt_of_le (finite (.round t) (List.mem_append_right _ (.head _)) _ rfl)
      (finite e mem u time) (finite (.round t') mem' _ rfl) le soon

/-- While the settings stay as they are, and the stages happen one not before the
other, the starts of a service are debounced, whatever is requested. -/
def Debounces (W : Type) [World W] (p : String) : Prop :=
  ∀ (settings : Daemon.Settings) (file : Option String) (start : Float) (w s : _)
    (es : List (Stage W)),
    History (fun _ => True) (new (Daemon.start settings file start) w) es s →
      (∀ e ∈ es, e.before.daemon.settings = settings ∧ e.after.daemon.settings = settings) →
      Timed es → Debounced settings.nodeName p es

/-- Rounds one after the other are a history. -/
theorem history_turnsAt (allowed : Request → Prop) (host : Daemon.Host) (times : List Moment)
    (s : Monitor W) :
    History allowed s ((turnsAt host times s).1.map .round) (turnsAt host times s).2 := by
  induction times generalizing s with
  | nil => exact .refl s
  | cons now rest ih =>
    let t : Turn W := ⟨host, now, now.wall, s⟩
    have first : History allowed s [.round t] t.after :=
      (History.refl s).stage (.round t) trivial
    exact first.trans (ih t.after)

/-- Rounds after something that they have no part in are a history. -/
theorem history_aside_turnsAt (allowed : Request → Prop) (host : Daemon.Host)
    (times : List Moment) {s s' : Monitor W} (name : s'.daemon.nodeName = s.daemon.nodeName)
    (data : s'.daemon.store.data = s.daemon.store.data) (running : s'.running = s.running) :
    History allowed s (.aside s s' :: (turnsAt host times s').1.map .round)
      (turnsAt host times s').2 := by
  have happened : History allowed s [.aside s s'] s' :=
    (History.refl s).stage (.aside s s') ⟨name, data, running⟩
  exact happened.trans (history_turnsAt allowed host times s')

namespace Script

/-- Rounds while the service is reported in a way, as a history. -/
def stagesWhile (a : Avail) (times : List Nat) (s : Monitor Simulation.World) :
    List (Stage Simulation.World) :=
  .aside s (reporting a s) :: (turnsWhile a times s).1.map .round

/-- The run on which the record lapses, as a history. -/
def retrying : List (Stage Simulation.World) :=
  .request (Moment.ofMillis 0) request fresh
    :: (stagesWhile .down [0, 1000, 2000, 8000] configured ++ stagesWhile .unknown [9000] failing.2
      ++ stagesWhile .down [10000, 11000, 17000] lost.2)

theorem history_request {allowed : Request → Prop} (asked : allowed request) :
    History allowed fresh [.request (Moment.ofMillis 0) request fresh] configured :=
  (History.refl fresh).stage (.request (Moment.ofMillis 0) request fresh) asked

theorem history_stagesWhile (allowed : Request → Prop) (a : Avail) (times : List Nat)
    (s : Monitor Simulation.World) :
    History allowed s (stagesWhile a times s) (turnsWhile a times s).2 :=
  history_aside_turnsAt allowed _ _ rfl rfl rfl

theorem history_retrying :
    History (Request.Foreign settings.nodeName) fresh retrying again.2 := by
  have asked : Request.Foreign settings.nodeName request := fun _ _ peer => by cases peer
  exact (history_request asked).trans (((history_stagesWhile _ .down [0, 1000, 2000, 8000] _).trans
    (history_stagesWhile _ .unknown [9000] _)).trans
      (history_stagesWhile _ .down [10000, 11000, 17000] _))

/-- What somebody sends in the name of the node: its blob, with a record that has
been ready for a long time. -/
def forged : Value :=
  .map [("frozen", .float 0), ("labels", .map []),
    ("monitor", .map [("global_expect", .null), ("local_expect", .null), ("status", .str "idle"),
      ("status_updated", .float 1001)]),
    ("services", .map [
      ("config", .map [("svc", .map [("orchestrate", .str "ha"), ("scope", .ofStrings ["n1"])])]),
      ("status", .map [("svc", .map [("avail", .str "down"),
        ("monitor", .map [("global_expect", .null), ("local_expect", .null), ("restart", .map []),
          ("status", .str "ready"), ("status_updated", .float 0)]),
        ("overall", .str "down"), ("updated", .float 1001)])])]),
    ("stats", .map [("procs", .int 0), ("tick", .float 1001)]), ("updated", .float 1001)]

def forgery : Request := .peerMessage "n1" ⟨1, 0, .full forged⟩

/-- The service is reported down and becomes ready. -/
def readied : List (Turn Simulation.World) × Monitor Simulation.World :=
  turnsWhile .down [1000000, 1001000] configured

/-- The monitor after the message. -/
def misled : Monitor Simulation.World :=
  { readied.2 with
    daemon := (Daemon.serve (Moment.ofMillis 1001000) forgery).after readied.2.daemon }

/-- What happens until the message has arrived. -/
def misleading : List (Stage Simulation.World) :=
  .request (Moment.ofMillis 0) request fresh :: (stagesWhile .down [1000000, 1001000] configured
    ++ [.request (Moment.ofMillis 1001000) forgery readied.2])

/-- The round after the message. -/
def rash : Turn Simulation.World :=
  ⟨⟨"n1", 0⟩, Moment.ofMillis 1002000, (Moment.ofMillis 1002000).wall, misled⟩

theorem history_misleading :
    History (fun _ => True) fresh (misleading ++ [.round rash]) rash.after := by
  have sent : History (fun _ => True) readied.2
      [.request (Moment.ofMillis 1001000) forgery readied.2] misled :=
    (History.refl readied.2).stage (.request (Moment.ofMillis 1001000) forgery readied.2) trivial
  have until_ : History (fun _ => True) fresh misleading misled :=
    (history_request trivial).trans ((history_stagesWhile _ .down _ _).trans sent)
  exact until_.stage (.round rash) trivial

end Script

open Script

/-- The start is tried twice, and nine seconds lie between the attempts. -/
theorem debounced_retrying :
    History (Request.Foreign settings.nodeName) fresh retrying again.2 ∧ Timed retrying
      ∧ attempts "svc" (turnsOf retrying) = 2 ∧ Debounced settings.nodeName "svc" retrying := by
  have timed : Timed retrying := by decide +kernel
  exact ⟨history_retrying, timed, by decide +kernel, debounced history_retrying timed⟩

/-- The service is ready for one second when the message arrives, and the next
round tries its start. -/
theorem not_debounces : ¬ Debounces Simulation.World "svc" := by
  intro debounces
  have steady : ∀ e ∈ misleading ++ [.round rash],
      e.before.daemon.settings = settings ∧ e.after.daemon.settings = settings := by
    decide +kernel
  have timed : Timed (misleading ++ [.round rash]) := by decide +kernel
  have claimed := debounces settings none 0 _ _ _ history_misleading steady timed
  obtain ⟨-, u, since, waited⟩ := claimed.waited misleading rash [] rfl (by decide +kernel)
  have ready : readySince? settings.nodeName "svc" misleading = some 1001 := by decide +kernel
  obtain rfl := Option.some.inj (ready.symm.trans since)
  have soon : rash.at_ - 1001 < rash.readyPeriod := by decide +kernel
  exact waited soon

end HaCluster.Monitor
