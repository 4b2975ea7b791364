import HaCluster.Monitor.Run
import HaCluster.Proofs.Monitor.Parts
import HaCluster.Simulation.World

/-!
# Rounds and what lies between them

A run of a monitor (`Course`) is made of its rounds and of what happens between
them that is not its own doing (`Outside`): requests, beats, processes that end.
Nothing of the latter touches the table of running actions, so the table is what
the rounds have made of it (`one_at_a_time`).

A round launches what it decides, apart from what the launcher refuses
(`Sound.mem_launched_iff`), so what is launched on a run can be read off the
situations that its rounds decide about.
-/

namespace HaCluster.Monitor

variable {W : Type} [World W]

/-! ## Runs -/

/-- A round as it happens: when, and to which monitor. -/
structure Turn (W : Type) where
  host : Daemon.Host
  now : Moment
  at_ : Float
  before : Monitor W

namespace Turn

/-- The monitor after a round, whether it failed or not. -/
def after (t : Turn W) : Monitor W :=
  match round t.host t.now t.at_ t.before with
  | .ok _ s => s
  | .error _ s => s

theorem after_eq {t : Turn W} {r : Report} {s : Monitor W}
    (h : round t.host t.now t.at_ t.before = .ok r s) : t.after = s := by
  unfold after
  rw [h]

/-- What a round reports, if it does not fail. -/
def report? (t : Turn W) : Option Report :=
  match round t.host t.now t.at_ t.before with
  | .ok r _ => some r
  | .error _ _ => none

theorem report?_eq {t : Turn W} {r : Report} {s : Monitor W}
    (h : round t.host t.now t.at_ t.before = .ok r s) : t.report? = some r := by
  unfold report?
  rw [h]

/-- The actions that a round reports as launched. -/
def launched (t : Turn W) : List Action := (t.report?.map Report.launched).getD []

theorem launched_eq {t : Turn W} {r : Report} (h : t.report? = some r) :
    t.launched = r.launched := by
  unfold launched
  rw [h]
  rfl

/-- The actions that a round reports as completed. -/
def completed (t : Turn W) : List Action :=
  (t.report?.map (fun r => r.completed.map Prod.fst)).getD []

theorem completed_eq {t : Turn W} {r : Report} (h : t.report? = some r) :
    t.completed = r.completed.map Prod.fst := by
  unfold completed
  rw [h]
  rfl

/-- What a round observes, oldest first. -/
def events (t : Turn W) : List Event := t.after.events.drop t.before.events.length

/-- The readings that a round takes in. -/
def taken (t : Turn W) : List Status.Refreshed :=
  match settle t.host t.now t.at_ t.before with
  | .ok _ s => readings t.now.wall s
  | .error _ _ => []

/-- The situation of a service about which a round decides. -/
def situation? (t : Turn W) (p : String) : Option Service.Situation :=
  match prepare t.host t.now t.at_ t.before with
  | .ok o s =>
    if p ∈ o.services t.at_ s then Monitor.situation? t.at_ (o.view t.at_ s) o.node s p else none
  | .error _ _ => none

theorem situation?_eq {t : Turn W} {o : Outlook} {s : Monitor W}
    (h : prepare t.host t.now t.at_ t.before = .ok o s) (p : String) :
    t.situation? p = if p ∈ o.services t.at_ s
      then Monitor.situation? t.at_ (o.view t.at_ s) o.node s p else none := by
  unfold situation?
  rw [h]

/-- The statuses that a round takes in may be taken in. -/
def Accepts (R : String → Entries Value → Prop) (t : Turn W) : Prop :=
  ∀ r ∈ t.taken, (∃ doc, r.reading = .ok (some (.map doc))) →
    ∀ new, Node.Blob.Accepts R r.service new

end Turn

omit [World W] in
/-- What can happen to a monitor between two rounds, if only some requests are
made. -/
inductive Outside (allowed : Request → Prop) : Monitor W → Monitor W → Prop
  /-- Somebody asks something of the daemon. -/
  | request {s : Monitor W} (now : Moment) {r : Request} (made : allowed r) :
    Outside allowed s { s with daemon := (Daemon.serve now r).after s.daemon }
  /-- Anything that leaves the tree, the name of the node and the table alone:
  peers beat, other settings come into force, patches are published, workers
  read statuses, processes go on and end. -/
  | aside {s s' : Monitor W} (name : s'.daemon.nodeName = s.daemon.nodeName)
    (data : s'.daemon.store.data = s.daemon.store.data) (running : s'.running = s.running) :
    Outside allowed s s'

/-- A run of a monitor, with its rounds. -/
inductive Course (allowed : Request → Prop) : Monitor W → List (Turn W) → Monitor W → Prop
  | refl (s : Monitor W) : Course allowed s [] s
  | outside {s t u : Monitor W} {ts : List (Turn W)} (run : Course allowed s ts t)
    (step : Outside allowed t u) : Course allowed s ts u
  | round {s : Monitor W} {ts : List (Turn W)} (t : Turn W)
    (run : Course allowed s ts t.before) : Course allowed s (ts ++ [t]) t.after

/-- A run goes on. -/
theorem Course.trans {allowed : Request → Prop} {s t u : Monitor W} {ts us : List (Turn W)}
    (run : Course allowed s ts t) (rest : Course allowed t us u) :
    Course allowed s (ts ++ us) u := by
  -- a run grows at its end, so the induction is on the second one
  induction rest with
  | refl =>
    rw [List.append_nil]
    exact run
  | outside _ step ih => exact ih.outside step
  | round t _ ih =>
    rw [← List.append_assoc]
    exact ih.round t

omit [World W] in
/-- In a list that grows at its end, one of its members is the last one, or there before. -/
theorem last_or_before {α : Type} {past future l : List α} {x y : α}
    (whole : past ++ x :: future = l ++ [y]) :
    past = l ∧ x = y ∨ ∃ rest, past ++ x :: rest = l := by
  rcases List.eq_nil_or_concat' future with rfl | ⟨rest, z, rfl⟩
  · obtain ⟨same, last⟩ := List.append_inj' whole rfl
    exact .inl ⟨same, List.head_eq_of_cons_eq last⟩
  · rw [← List.cons_append, ← List.append_assoc] at whole
    exact .inr ⟨rest, (List.append_inj' whole rfl).1⟩

/-- A run up to one of its rounds. -/
theorem Course.upTo {allowed : Request → Prop} {s s' : Monitor W} {past future : List (Turn W)}
    {t : Turn W} (run : Course allowed s (past ++ t :: future) s') :
    Course allowed s past t.before := by
  generalize whole : past ++ t :: future = l at run
  induction run generalizing future with
  | refl => cases past <;> cases whole
  | outside _ _ ih => exact ih whole
  | round _ run ih =>
    rcases last_or_before whole with ⟨rfl, rfl⟩ | ⟨_, before⟩
    · exact run
    · exact ih before

/-- Rounds one after the other, and the monitor after them. -/
def turnsAt (host : Daemon.Host) : List Moment → Monitor W → List (Turn W) × Monitor W
  | [], s => ([], s)
  | now :: rest, s =>
    let t : Turn W := ⟨host, now, now.wall, s⟩
    let (ts, s) := turnsAt host rest t.after
    (t :: ts, s)

/-- Rounds one after the other are a run. -/
theorem course_turnsAt (allowed : Request → Prop) (host : Daemon.Host) (times : List Moment)
    (s : Monitor W) :
    Course allowed s (turnsAt host times s).1 (turnsAt host times s).2 := by
  induction times generalizing s with
  | nil => exact .refl s
  | cons now rest ih =>
    let t : Turn W := ⟨host, now, now.wall, s⟩
    exact ((Course.refl s).round t).trans (ih t.after)

/-- **The loop of the monitor is a run**, in which nothing is asked of it. -/
theorem exists_course_rounds (host : Daemon.Host) (now : Moment) (n : Nat) (s : Monitor W) :
    ∃ ts, Course (fun _ => False) s ts (rounds host now n s).2 := by
  induction n generalizing s with
  | zero => exact ⟨[], .refl s⟩
  | succ n ih =>
    let t : Turn W := ⟨host, now, now.wall, s⟩
    have after : (roundOrNothing host now s).2 = t.after := by
      unfold roundOrNothing Turn.after
      split <;> rename_i done <;> rw [done]
    have turn : Course (fun _ => False) s [t] t.after := (Course.refl s).round t
    unfold rounds
    split
    · exact ⟨[], (Course.refl s).outside (.aside rfl rfl rfl)⟩
    · rw [← after] at turn
      dsimp only
      split
      · exact ⟨[t], turn⟩
      · let woken : Monitor W := { (roundOrNothing host now s).2 with
          daemon := (roundOrNothing host now s).2.daemon.awaken.2 }
        have slept : Course (fun _ => False) s [t] woken := turn.outside (.aside rfl rfl rfl)
        obtain ⟨ts, rest⟩ := ih woken
        exact ⟨[t] ++ ts, slept.trans rest⟩

end HaCluster.Monitor

namespace HaCluster

/-- A request that does not speak for a node as its peer. -/
def Request.Foreign (node : String) (r : Request) : Prop :=
  ∀ peer m, r = .peerMessage peer m → peer ≠ node

namespace Monitor

variable {W : Type} {R : String → Entries Value → Prop} {node : String} {s s' : Monitor W}
  {allowed : Request → Prop}

/-- What requests are allowed if a rule on the status documents is to be kept:
nobody speaks for the node, and the statuses that are posted may be taken in. -/
structure Admitted (R : String → Entries Value → Prop) (node : String)
    (allowed : Request → Prop) : Prop where
  foreign (r : Request) : allowed r → r.Foreign node
  posted (r : Request) : allowed r → ∀ p new, r = .postStatus p (.map new) →
    Node.Blob.Accepts R p new

/-- A monitor that has not run yet. -/
theorem sound_new (R : String → Entries Value → Prop) (settings : Daemon.Settings)
    (file : Option String) (start : Float) (w : W) :
    Sound R settings.nodeName (new (Daemon.start settings file start) w) where
  daemon := Daemon.sound_start R settings file start
  sorted := Entries.Sorted.nil
  keyed := nofun

/-- What lies between two rounds leaves a monitor sound. -/
theorem Sound.outside (rule : Node.Blob.Rule R) (h : Sound R node s)
    (admitted : Admitted R node allowed)
    (step : Outside allowed s s') : Sound R node s' ∧ s'.running = s.running := by
  cases step with
  | request now made =>
    have served := Daemon.preserves_serve rule now (admitted.foreign _ made)
      (admitted.posted _ made) s.daemon h.daemon
    exact ⟨h.congr served rfl, rfl⟩
  | aside name data running =>
    exact ⟨h.congr ⟨name.trans h.daemon.name, h.daemon.shaped.congr (by rw [data])⟩ running,
      running⟩

variable [World W] {ts : List (Turn W)}

/-- What a round of a sound monitor comes to. -/
theorem Sound.turn (rule : Node.Blob.Rule R) {t : Turn W} (h : Sound R node t.before)
    (accepts : t.Accepts R) :
    ∃ o u r, prepare t.host t.now t.at_ t.before = .ok o u ∧ Sound R node u
      ∧ t.report? = some r ∧ Sound R node t.after ∧ Passed t.at_ t.before o u r t.after := by
  obtain ⟨o, u, r, s', prepared, soundU, done, sound, passed⟩ := round_ok rule h t.at_ <| by
    intro done v settled
    unfold Turn.Accepts Turn.taken at accepts
    rw [settled] at accepts
    exact accepts
  have after : t.after = s' := Turn.after_eq done
  have report : t.report? = some r := Turn.report?_eq done
  rw [after]
  exact ⟨o, u, r, prepared, soundU, report, sound, passed⟩

/-- **What a round decides** it tries to launch, and what it tries is launched or
refused. -/
theorem Sound.tried (rule : Node.Blob.Rule R) {t : Turn W} (h : Sound R node t.before)
    (accepts : t.Accepts R) (a : Action) :
    (a ∈ t.launched ∨ Event.done a none ∈ t.events
        ↔ ∃ x, t.situation? a.path = some x ∧ x.decide.action = some a)
      ∧ (a ∈ t.launched → Event.done a none ∉ t.events) := by
  obtain ⟨o, u, r, prepared, soundU, report, -, passed⟩ := h.turn rule accepts
  have nodup : (o.services t.at_ u).Nodup := by
    unfold Outlook.services
    split
    · exact List.nodup_nil
    · exact soundU.daemon.nodup_localServices
  obtain ⟨refused, events, either, apart⟩ := passed.services.outcome nodup
  have noted : Event.done a none ∈ t.events ↔ a ∈ refused := by
    obtain ⟨es, all, spec⟩ := passed.unrefused.append events
    unfold Turn.events
    rw [all, List.drop_left]
    exact spec a
  have decided : (∃ x, t.situation? a.path = some x ∧ x.decide.action = some a)
      ↔ a.path ∈ o.services t.at_ u
        ∧ wanted t.at_ (o.view t.at_ u) o.node u a.path = some a := by
    rw [Turn.situation?_eq prepared, wanted, Option.bind_eq_some_iff]
    split <;> rename_i local_ <;> simp [local_]
  rw [noted, decided, Turn.launched_eq report]
  exact ⟨either a, apart a⟩

/-- **What a round launches** is what it decides about the services, apart from
what could not be launched. -/
theorem Sound.mem_launched_iff (rule : Node.Blob.Rule R) {t : Turn W} (h : Sound R node t.before)
    (accepts : t.Accepts R) (a : Action) :
    a ∈ t.launched ↔ (∃ x, t.situation? a.path = some x ∧ x.decide.action = some a)
      ∧ Event.done a none ∉ t.events := by
  obtain ⟨tried, apart⟩ := h.tried rule accepts a
  rw [← tried]
  exact ⟨fun ha => ⟨.inl ha, apart ha⟩, fun ⟨ha, unrefused⟩ => ha.resolve_right unrefused⟩

/-- **A monitor stays sound along every run** on which all statuses may be
taken in. -/
theorem Course.sound (rule : Node.Blob.Rule R) (run : Course allowed s ts s')
    (start : Sound R node s) (admitted : Admitted R node allowed)
    (taken : ∀ t ∈ ts, t.Accepts R) : Sound R node s' := by
  induction run with
  | refl => exact start
  | outside _ step ih => exact ((ih taken).outside rule admitted step).1
  | round t _ ih =>
    have before := ih fun u hu => taken u (List.mem_append_left _ hu)
    obtain ⟨-, -, -, -, -, -, sound, -⟩ :=
      before.turn rule (taken t (List.mem_append_right _ List.mem_cons_self))
    exact sound

/-! ## One action at a time -/

namespace Turn

/-- A round keeps to one action at a time: it does not fail, launches and
completes at most one action per service, completes only what was in flight,
and launches nothing on a service where something was in flight that it does
not complete. -/
structure Orderly (t : Turn W) : Prop where
  succeeds : t.report?.isSome
  launched : (t.launched.map Action.path).Nodup
  completed : (t.completed.map Action.path).Nodup
  ended : ∀ a ∈ t.completed, a ∈ t.before.inFlight
  free : ∀ a ∈ t.launched, ∀ b ∈ t.before.inFlight, b.path = a.path → b ∈ t.completed

theorem accepts_anything (t : Turn W) : t.Accepts Node.Blob.anything :=
  fun r _ _ new => Node.Blob.accepts_anything r.service new

end Turn

omit [World W] in
/-- Actions are on different services if there is at most one on each. -/
theorem nodup_paths_iff {l : List Action} :
    (l.map Action.path).Nodup ↔ ∀ p, (on p l).length ≤ 1 := by
  rw [List.nodup_iff_count_le_one]
  refine forall_congr' fun p => ?_
  rw [List.count, List.countP_map, List.countP_eq_length_filter, on]
  rfl

omit [World W] in
/-- No two actions in flight are on one service. -/
theorem Sound.nodup_inFlight (h : Sound R node s) : (s.inFlight.map Action.path).Nodup := by
  rw [nodup_paths_iff]
  intro p
  rw [h.on_inFlight]
  cases Entries.get? s.running p with
  | none => exact Nat.zero_le 1
  | some r => exact Nat.le_refl 1

/-- The account of one round. -/
theorem Sound.turn_accounts (rule : Node.Blob.Rule R) {t : Turn W} (h : Sound R node t.before)
    (accepts : t.Accepts R) (p : String) :
    ∃ mid, on p t.before.inFlight = on p t.completed ++ mid
      ∧ mid ++ on p t.launched = on p t.after.inFlight := by
  obtain ⟨o, u, r, -, -, report, -, passed⟩ := h.turn rule accepts
  rw [Turn.launched_eq report, Turn.completed_eq report]
  exact ⟨on p u.inFlight, passed.completed p, passed.services.accounts p⟩

/-- **Each round of a sound monitor keeps to one action at a time.** -/
theorem Sound.orderly (rule : Node.Blob.Rule R) {t : Turn W} (h : Sound R node t.before)
    (accepts : t.Accepts R) : t.Orderly := by
  obtain ⟨-, -, r, -, -, report, sound, -⟩ := h.turn rule accepts
  have before := nodup_paths_iff.1 h.nodup_inFlight
  have after := nodup_paths_iff.1 sound.nodup_inFlight
  refine ⟨report ▸ rfl, nodup_paths_iff.2 fun p => ?_, nodup_paths_iff.2 fun p => ?_,
    fun a ha => ?_, fun a ha b hb same => ?_⟩
  · obtain ⟨mid, -, launched⟩ := h.turn_accounts rule accepts p
    have room := after p
    rw [← launched, List.length_append] at room
    exact Nat.le_trans (Nat.le_add_left _ _) room
  · obtain ⟨mid, completed, -⟩ := h.turn_accounts rule accepts p
    have room := before p
    rw [completed, List.length_append] at room
    exact Nat.le_trans (Nat.le_add_right _ _) room
  · obtain ⟨mid, completed, -⟩ := h.turn_accounts rule accepts a.path
    have there : a ∈ on a.path t.before.inFlight := by
      rw [completed]
      exact List.mem_append_left _ (mem_on.2 ⟨ha, rfl⟩)
    exact (mem_on.1 there).1
  · obtain ⟨mid, completed, launched⟩ := h.turn_accounts rule accepts a.path
    have there : b ∈ on a.path t.before.inFlight := mem_on.2 ⟨hb, same⟩
    rw [completed] at there
    rcases List.mem_append.1 there with ended | kept
    · exact (mem_on.1 ended).1
    · -- what is kept and what is launched would be two on one service
      have room := after a.path
      rw [← launched, List.length_append] at room
      have old := List.length_pos_of_mem kept
      have new := List.length_pos_of_mem (mem_on.2 ⟨ha, rfl⟩)
      omega

/-- **Each round of a run finds a sound monitor.** -/
theorem Course.before (rule : Node.Blob.Rule R) (run : Course allowed s ts s')
    (start : Sound R node s) (admitted : Admitted R node allowed)
    (taken : ∀ t ∈ ts, t.Accepts R) : ∀ t ∈ ts, Sound R node t.before := by
  induction run with
  | refl => exact fun _ none => absurd none List.not_mem_nil
  | outside _ _ ih => exact ih taken
  | round t run ih =>
    have earlier := fun u hu => taken u (List.mem_append_left _ hu)
    intro u hu
    rcases List.mem_append.1 hu with hu | hu
    · exact ih earlier u hu
    · cases List.mem_singleton.1 hu
      exact run.sound rule start admitted earlier

/-- **The table is the account of the rounds.** Of each service, what was
launched is what was completed and what is in flight, in order. -/
theorem Course.accounts (rule : Node.Blob.Rule R) (run : Course allowed s ts s')
    (start : Sound R node s) (idle : s.running = []) (admitted : Admitted R node allowed)
    (taken : ∀ t ∈ ts, t.Accepts R) (p : String) :
    on p (ts.flatMap Turn.launched) = on p (ts.flatMap Turn.completed) ++ on p s'.inFlight := by
  induction run with
  | refl =>
    unfold inFlight
    rw [idle]
    rfl
  | outside run step ih =>
    have before := run.sound rule start admitted taken
    have same := (before.outside rule admitted step).2
    rw [ih taken, inFlight, inFlight, same]
  | @round ts t run ih =>
    have earlier := fun u hu => taken u (List.mem_append_left _ hu)
    have now := taken t (List.mem_append_right _ List.mem_cons_self)
    have before := run.sound rule start admitted earlier
    obtain ⟨mid, completed, launched⟩ := before.turn_accounts rule now p
    simp only [List.flatMap_append, List.flatMap_singleton, on_append]
    rw [ih earlier, completed, ← launched]
    simp only [List.append_assoc]

namespace Script

/-- The settings of a node by itself. -/
def settings : Daemon.Settings := .standard ⟨"n1", 0⟩

/-- A node on which nothing has happened yet. Its processes end with success as
soon as they are asked, and no driver reports anything. -/
def fresh : Monitor Simulation.World :=
  new (Daemon.start settings none 0) (Simulation.World.new false false)

/-- What the node is asked: to keep a service up. -/
def request : Request :=
  .postConfig "svc" (some (.map [("orchestrate", .str "ha"), ("scope", .ofStrings ["n1"])]))

/-- The node after it was asked. -/
def configured : Monitor Simulation.World :=
  { fresh with daemon := (Daemon.serve (Moment.ofMillis 0) request).after fresh.daemon }

/-- Its rounds at some times, in milliseconds. -/
def turns (times : List Nat) : List (Turn Simulation.World) × Monitor Simulation.World :=
  turnsAt ⟨"n1", 0⟩ (times.map Moment.ofMillis) configured

theorem course_turns {allowed : Request → Prop} (asked : allowed request) (times : List Nat) :
    Course allowed fresh (turns times).1 (turns times).2 :=
  ((Course.refl fresh).outside (.request (Moment.ofMillis 0) asked)).trans
    (course_turnsAt allowed _ _ _)

end Script

end Monitor

end HaCluster
