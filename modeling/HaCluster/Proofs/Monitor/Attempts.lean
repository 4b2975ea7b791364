import HaCluster.Proofs.Daemon.Record
import HaCluster.Proofs.Monitor.Frame
import HaCluster.Proofs.Service.Retries

/-!
# Attempts at starting a service

The record of a service says how often its start was retried, and whether the
last one failed. An attempt leaves a failure behind, or an action in flight that
will; the next attempt takes a record that is neither. So a record that is ready
for an attempt is worth one (`credit`), and to get it back after a failure a
retry is counted.

Along a round, what is attempted and what is left for another attempt is paid for
by retries that were counted, but for the rounds that forget that a start failed
(`Ledger`). That is shown here for each stage of a round that has to do with the
service; all others leave its record and its entry in the table alone
(`Beside`).
-/

namespace HaCluster.Monitor

open Value Mutation
open Daemon (Since)

variable {W : Type} {node p : String} {n : Nat} {s s' s'' t : Monitor W}

/-! ## What has nothing to do with a service -/

/-- Of a tree the record of a service is left alone, and the mapping of the
instances is left a mapping. -/
def Spared (node p : String) (v w : Value) : Prop :=
  w.lookup (Layout.serviceMonitor node p) = v.lookup (Layout.serviceMonitor node p)
    ∧ (HasMapping v (Node.Blob.statuses node) → HasMapping w (Node.Blob.statuses node))

theorem frame_spared (node p : String) :
    Frame (Node.Blob.Edits node True (· ≠ p) (· ≠ node)) (Node.Blob.Makes node) (Spared node p) :=
  (Node.Blob.frame_record node p).and ((Node.Blob.frame_statuses node).mono
    (fun _ hq => hq.mono id (fun _ _ => trivial) fun _ hn => hn) fun _ hq => hq)

/-- What happened between two states had nothing to do with a service. -/
structure Beside (node p : String) (s s' : Monitor W) : Prop where
  name : s'.daemon.nodeName = node
  data : Spared node p s.daemon.store.data s'.daemon.store.data
  running : Entries.get? s'.running p = Entries.get? s.running p

theorem Beside.refl (name : s.daemon.nodeName = node) : Beside node p s s :=
  ⟨name, (frame_spared node p).refl _, rfl⟩

/-- A step beside a service, which leaves its entry in the table. -/
theorem Beside.of_retains {α : Type} {m : Step W α} {a : α}
    (retains : Retains (Since node (Spared node p) s.daemon.store) m)
    (name : s.daemon.nodeName = node) (run : m s = .ok a s')
    (running : Entries.get? s'.running p = Entries.get? s.running p) : Beside node p s s' :=
  have since := retains.of_ok run (Daemon.since_refl (frame_spared node p) name)
  ⟨since.name, since.store.data, running⟩

/-! ## The account -/

/-- The record of a service. -/
def record (node p : String) (s : Monitor W) : Service.Monitor :=
  Node.Blob.instanceMonitor s.daemon.store node p

/-- How often the start of a service was retried. -/
def retried (m : Service.Monitor) : Nat := (Entries.get? m.retries Service.serviceRetries).getD 0

/-- A service can be started without a retry: nothing is in flight, and the last
start did not fail. -/
def credit (node p : String) (s : Monitor W) : Nat :=
  if (Entries.get? s.running p).isSome ∨ (record node p s).state = .startFailed then 0 else 1

/-- The service was never up, and nothing was asked of it but what the cluster
does by itself. -/
structure Held (n : Nat) (node p : String) (s : Monitor W) : Prop where
  sound : Sound Node.Blob.anything node s
  statuses : HasMapping s.daemon.store.data (Node.Blob.statuses node)
  regular : (record node p s).Regular
  unasked : (record node p s).globalExpect = none
  fresh : (record node p s).localExpect = none
  within : retried (record node p s) ≤ n
  starts : ∀ r, Entries.get? s.running p = some r → r.action = .whole p .start

/-- Attempts and the credit that is left are paid for by the credit that was
there, by retries that were counted, and by failures that were forgotten. -/
def Ledger (node p : String) (s s' : Monitor W) (attempts forgotten : Nat) : Prop :=
  attempts + credit node p s' + retried (record node p s)
    ≤ credit node p s + retried (record node p s') + forgotten

theorem Ledger.trans {a a' f f' : Nat} (h : Ledger node p s s' a f)
    (h' : Ledger node p s' s'' a' f') : Ledger node p s s'' (a + a') (f + f') := by
  unfold Ledger at *
  omega

theorem Beside.record (h : Beside node p s s') : record node p s' = record node p s := by
  unfold Monitor.record
  rw [Node.Blob.instanceMonitor_eq, Node.Blob.instanceMonitor_eq, h.data.1]

/-- What has nothing to do with the service changes nothing in its account. -/
theorem Held.beside (h : Held n node p s) (beside : Beside node p s s')
    (sound : Sound Node.Blob.anything node s') :
    Held n node p s' ∧ Ledger node p s s' 0 0 := by
  have same := beside.record
  refine ⟨⟨sound, beside.data.2 h.statuses, ?_, ?_, ?_, ?_, ?_⟩, ?_⟩
  · exact same ▸ h.regular
  · exact same ▸ h.unasked
  · exact same ▸ h.fresh
  · exact same ▸ h.within
  · exact beside.running ▸ h.starts
  · unfold Ledger credit
    rw [same, beside.running]
    omega

/-! ## What becomes of the record -/

/-- The record of the service was changed, and nothing else that has to do with
it. -/
structure Written (node p : String) (edit : Service.Monitor → Service.Monitor)
    (s s' : Monitor W) : Prop where
  statuses : HasMapping s'.daemon.store.data (Node.Blob.statuses node)
  regular : (Monitor.record node p s').Regular
  alike : (edit (Monitor.record node p s)).Alike (Monitor.record node p s')
  running : s'.running = s.running

/-- The record of a service is written. -/
theorem Held.write (h : Held n node p s) {at_ : Float} (finite : at_.isFinite = true)
    (edit : Service.Monitor → Service.Monitor) (next : (edit (record node p s)).Regular) :
    ∃ changed s', mutate (Node.Blob.updateInstanceMonitor node p at_ edit) s = .ok changed s'
      ∧ Sound Node.Blob.anything node s' ∧ Written node p edit s s' := by
  obtain ⟨changed, store, updated, regular, alike⟩ := Node.Blob.updateInstanceMonitor_ok
    Node.Blob.rule_anything h.sound.daemon.shaped finite h.regular next
  obtain ⟨a, s', run, sound, -⟩ := quiet_mutate (Node.Blob.keeps_updateInstanceMonitor (p := p)
    Node.Blob.rule_anything at_ edit) s h.sound
  have stored : mutate (Node.Blob.updateInstanceMonitor node p at_ edit) s
      = .ok changed { s with daemon := { s.daemon with store } } := by
    unfold mutate onDaemon Daemon.mutate
    rw [updated]
  have frame := Node.Blob.frame_statuses node
  have retains : Retains (W := W) (Since node _ s.daemon.store)
      (mutate (Node.Blob.updateInstanceMonitor node p at_ edit)) :=
    retains_mutate frame (Node.Blob.framed_updateInstanceMonitor frame (.record trivial) at_ edit)
  have kept := retains.of_ok run (Daemon.since_refl frame h.sound.daemon.name)
  rw [stored] at run
  cases run
  exact ⟨changed, _, stored, sound, kept.store.data h.statuses, regular, alike, rfl⟩

/-- The parts of a monitor that are neither its daemon nor the table have nothing
to do with a service. -/
theorem Held.congr (h : Held n node p s) (daemon : t.daemon = s.daemon)
    (running : Entries.get? t.running p = Entries.get? s.running p)
    (sound : Sound Node.Blob.anything node t) :
    Held n node p t ∧ Ledger node p s t 0 0 := by
  refine h.beside ⟨daemon ▸ h.sound.daemon.name, ?_, running⟩ sound
  rw [daemon]
  exact (frame_spared node p).refl _

theorem Held.written (h : Held n node p s) {edit : Service.Monitor → Service.Monitor}
    (sound : Sound Node.Blob.anything node s') (written : Written node p edit s s')
    (unasked : (edit (record node p s)).globalExpect = none)
    (fresh : (edit (record node p s)).localExpect = none)
    (within : retried (edit (record node p s)) ≤ n) : Held n node p s' where
  sound := sound
  statuses := written.statuses
  regular := written.regular
  unasked := written.alike.globalExpect.trans unasked
  fresh := written.alike.localExpect.trans fresh
  within := by
    unfold retried at within ⊢
    rw [written.alike.retries]
    exact within
  starts := written.running ▸ h.starts

/-- A step that notes an event under a condition first, and what it does then. -/
theorem when_emit_run {α : Type} {c : Prop} [Decidable c] (e : Event) (f : PUnit → Step W α)
    (s : Monitor W) :
    ∃ s', (if c then emit e >>= f else f ⟨⟩) s = f ⟨⟩ s' ∧ s'.daemon = s.daemon
      ∧ s'.running = s.running := by
  split
  · exact ⟨{ s with events := s.events ++ [e] }, rfl, rfl, rfl⟩
  · exact ⟨s, rfl, rfl, rfl⟩

variable [World W]

/-! ## Attempts that fail -/

/-- The end of an action is written down, and noted. -/
theorem complete_run {at_ : Float} (now : Float) {a : Action} (code : Option Int) {changed : Bool}
    (written : mutate (Node.Blob.updateInstanceMonitor s.daemon.nodeName a.path at_
      (outcome a (code = some 0))) s = .ok changed t) :
    ∃ s', complete at_ now a code s = .ok () s' ∧ s'.daemon = t.daemon
      ∧ s'.running = t.running := by
  let before := Node.Blob.instanceMonitor s.daemon.store s.daemon.nodeName a.path
  let after := outcome a (code = some 0) before
  let u : Monitor W := { t with
    pool := t.pool.submit (World.readStatus t.world) now a.path
    events := t.events ++ [.done a code] }
  have noted : complete at_ now a code s
      = (if before.state ≠ after.state then
          emit (.service a.path before.state after.state (endReason a code))
        else pure ⟨⟩ : Step W Unit) u := bind_ok written
  rw [noted]
  split
  · exact ⟨_, rfl, rfl, rfl⟩
  · exact ⟨_, rfl, rfl, rfl⟩

/-- **A start that failed**, or that could not be launched, is written down as
failed. -/
theorem Held.fails (h : Held n node p s) {at_ : Float} (finite : at_.isFinite = true) (now : Float)
    (code : Option Int) (failed : code ≠ some 0) :
    ∃ s', complete at_ now (.whole p .start) code s = .ok () s' ∧ Held n node p s'
      ∧ credit node p s' = 0 ∧ retried (record node p s') = retried (record node p s) := by
  have edit : outcome (.whole p .start) (code = some 0)
      = fun m => { m with state := .startFailed } := by
    funext m
    unfold outcome
    rw [decide_eq_false failed]
    rfl
  have next : ({ record node p s with state := .startFailed } : Service.Monitor).Regular :=
    ⟨h.regular.dated, h.regular.sorted, h.regular.counted⟩
  obtain ⟨changed, t, stored, sound, written⟩ :=
    h.write finite (fun m => { m with state := .startFailed }) next
  have held := h.written sound written h.unasked h.fresh h.within
  obtain ⟨s', run, daemon, running⟩ := complete_run (s := s) (a := .whole p .start) now code
    (by rw [edit, h.sound.daemon.name]; exact stored)
  have same : record node p s' = record node p t := by
    unfold record
    rw [daemon]
  have failure : (record node p s').state = .startFailed := by
    rw [same, written.alike.state]
  refine ⟨s', run, (held.congr daemon (by rw [running]) ?_).1, ?_, ?_⟩
  · exact sound.congr (daemon ▸ sound.daemon) running
  · exact if_pos (.inr failure)
  · unfold retried
    rw [same, written.alike.retries]

/-- The end of an action on another service has nothing to do with the service. -/
theorem Held.aside (h : Held n node p s) (at_ now : Float) {a : Action} (ne : a.path ≠ p)
    (code : Option Int) :
    ∃ s', complete at_ now a code s = .ok () s' ∧ Held n node p s' ∧ Ledger node p s s' 0 0 := by
  obtain ⟨s', run, sound, running, -, -⟩ :=
    complete_ok Node.Blob.rule_anything h.sound at_ now a code
  have beside := Beside.of_retains (retains_complete (frame_spared node p) at_ now ne code)
    h.sound.daemon.name run (by rw [running])
  exact ⟨s', run, h.beside beside sound⟩

omit [World W] in
/-- An action that ended leaves the table. -/
theorem Held.erase (h : Held n node p s) (q : String) :
    Held n node p { s with running := Entries.erase s.running q } where
  sound := h.sound.erase q
  statuses := h.statuses
  regular := h.regular
  unasked := h.unasked
  fresh := h.fresh
  within := h.within
  starts r hr := by
    rw [Entries.get?_erase] at hr
    split at hr
    · cases hr
    · exact h.starts r hr

/-- An action that ended leaves the table and is written down. If it is an
attempt, it had no credit, and has none if it failed. -/
theorem Held.ended (h : Held n node p s) {at_ : Float} (finite : at_.isFinite = true) (now : Float)
    {service : String} {r : Running} (there : Entries.get? s.running service = some r)
    (code : Int) :
    ∃ u, complete at_ now r.action (some code)
        { s with running := Entries.erase s.running service } = .ok () u
      ∧ Sound Node.Blob.anything node u
      ∧ ((r.action = .whole p .start → code ≠ 0) →
        Held n node p u ∧ Ledger node p s u 0 0) := by
  obtain ⟨u, run, sound, -⟩ := complete_ok Node.Blob.rule_anything (h.sound.erase service)
    at_ now r.action (some code)
  refine ⟨u, run, sound, fun failed => ?_⟩
  have path : r.action.path = service := h.sound.keyed _ (Entries.mem_of_get? there)
  by_cases same : service = p
  · subst same
    have action := h.starts r there
    obtain ⟨u', run', held, spent, counted⟩ :=
      (h.erase service).fails finite now (some code) (by simpa using failed action)
    rw [← action] at run'
    cases run.symm.trans run'
    refine ⟨held, ?_⟩
    unfold Ledger
    rw [spent, counted]
    show 0 + 0 + retried (record node service s)
      ≤ credit node service s + retried (record node service s) + 0
    omega
  · have left : Entries.get? (Entries.erase s.running service) p = Entries.get? s.running p :=
      Entries.get?_erase_of_ne _ (Ne.symm same)
    obtain ⟨heldT, gone⟩ := h.congr (t := { s with running := Entries.erase s.running service })
      rfl left (h.sound.erase service)
    obtain ⟨u', run', held, written⟩ := heldT.aside at_ now (path ▸ same) (some code)
    cases run.symm.trans run'
    exact ⟨held, gone.trans written⟩

/-- **Attempts that ended** are failures, and no other attempt is free. -/
theorem Held.completed (h : Held n node p s) {at_ : Float} (finite : at_.isFinite = true)
    (now : Float) (ended : List (String × Int)) :
    ∃ done s', completeAll at_ now ended s = .ok done s'
      ∧ ((∀ code, (Action.whole p .start, code) ∈ done → code ≠ 0) →
        Held n node p s' ∧ Ledger node p s s' 0 0) := by
  induction ended generalizing s with
  | nil => exact ⟨[], s, rfl, fun _ => h.beside (.refl h.sound.daemon.name) h.sound⟩
  | cons e ended ih =>
    obtain ⟨service, code⟩ := e
    cases there : Entries.get? s.running service with
    | none =>
      obtain ⟨done, s', run, spec⟩ := ih h
      refine ⟨done, s', ?_, spec⟩
      unfold completeAll
      rw [get_bind, there]
      exact run
    | some r =>
      obtain ⟨u, first, sound, one⟩ := h.ended finite now there code
      by_cases failed : r.action = .whole p .start → code ≠ 0
      · obtain ⟨held, ledger⟩ := one failed
        obtain ⟨done, s', rest, spec⟩ := ih held
        refine ⟨_, s', completeAll_cons there first rest, fun failed => ?_⟩
        obtain ⟨held', ledger'⟩ := spec fun c hc => failed c (List.mem_cons_of_mem _ hc)
        exact ⟨held', ledger.trans ledger'⟩
      -- an attempt that succeeded is among what ended
      · obtain ⟨done, s', rest, -⟩ := completeAll_ok Node.Blob.rule_anything sound at_ now ended
        obtain ⟨action, succeeds⟩ := Classical.not_imp.1 failed
        refine ⟨_, s', completeAll_cons there first rest, fun failed => ?_⟩
        exact absurd (failed code (action ▸ List.mem_cons_self)) succeeds

/-! ## Attempts that are made -/

/-- What a decision that is plain makes of a record: its state and, if it counts
a retry of the service, one more retry. -/
theorem retries_applyDecision {d : Service.Decision} (plain : d.Plain) (m : Service.Monitor) :
    (applyDecision d m).localExpect = m.localExpect
      ∧ (d.countRetry = none → (applyDecision d m).retries = m.retries)
      ∧ (d.countRetry = some Service.serviceRetries → (applyDecision d m).retries
        = Entries.insert m.retries Service.serviceRetries (retried m + 1)) := by
  unfold applyDecision
  rw [plain.expects, plain.drops]
  refine ⟨rfl, fun count => ?_, fun count => ?_⟩
  · rw [count]
  · rw [count]
    rfl

/-- A launch leaves the action in flight, or is an attempt that failed. -/
theorem Held.launched (h : Held n node p s) {at_ : Float} (finite : at_.isFinite = true)
    (now : Float) :
    ∃ b s', launch at_ now (.whole p .start) s = .ok b s' ∧ Held n node p s'
      ∧ credit node p s' = 0 ∧ retried (record node p s') = retried (record node p s) := by
  unfold launch
  rw [get_bind]
  cases launched : World.launch (.whole p .start) s.world with
  | mk process world =>
    cases process with
    | some k =>
      let r : Running := ⟨.whole p .start, k, at_⟩
      let t : Monitor W := { s with
        world := world
        events := s.events ++ [.launched (.whole p .start)]
        running := Entries.insert s.running p r }
      have found : Entries.get? t.running p = some r := Entries.get?_insert_self _ _ _
      refine ⟨true, t, rfl, ⟨h.sound.insert h.sound.daemon r rfl, h.statuses, h.regular, h.unasked,
        h.fresh, h.within, fun r' hr' => ?_⟩, ?_, rfl⟩
      · rw [found] at hr'
        cases hr'
        rfl
      · exact if_pos (.inl (by rw [found]; rfl))
    | none =>
      have held := (h.congr (t := { s with world := world }) rfl rfl
        (h.sound.congr h.sound.daemon rfl)).1
      obtain ⟨s', completed, failed, spent, counted⟩ :=
        held.fails finite now none nofun
      exact ⟨false, s', bind_ok completed, failed, spent, counted⟩

variable {at_ : Float} {v : View} {o : NodeOutcome} {c : Service.Config}

omit [World W] in
/-- What the service is decided about on has the record of the service, or none
because its document cannot be read. -/
theorem recorded (hv : v.localNode = node)
    (seen : ∀ i, v.instance? node p = some i → i.monitor = record node p s) :
    (serviceSituation s v o at_ p c).monitor = record node p s
      ∨ (serviceSituation s v o at_ p c).monitor = Service.Monitor.blank
        ∧ (serviceSituation s v o at_ p c).forgets := by
  subst hv
  unfold Service.Situation.forgets Service.Situation.avail Service.Situation.instance?
  unfold serviceSituation
  dsimp only
  cases there : v.instance? v.localNode p with
  | none => exact .inr ⟨rfl, rfl⟩
  | some i => exact .inl (seen i there)

omit [World W] in
/-- A decision about the service leaves a record that can be written, with the
retry counted if it counts one. -/
theorem Held.next (h : Held n node p s) (bounded : n < twoTo 32) {x : Service.Situation}
    (most : x.maxStartRetries = n) (attempt : Service.Attempt x x.decide) (plain : x.decide.Plain)
    (same : x.monitor.state = .startFailed → x.monitor = record node p s) :
    let next := applyDecision x.decide (record node p s)
    next.Regular ∧ retried next ≤ n
      ∧ retried next = retried (record node p s) + if x.decide.countRetry = none then 0 else 1 := by
  obtain ⟨-, kept, counted⟩ := retries_applyDecision plain (record node p s)
  have uncounted (count : x.decide.countRetry = none) :
      (applyDecision x.decide (record node p s)).Regular
        ∧ retried (applyDecision x.decide (record node p s)) = retried (record node p s) := by
    refine ⟨⟨h.regular.dated, ?_, ?_⟩, by rw [retried, kept count, retried]⟩
    · exact kept count ▸ h.regular.sorted
    · exact kept count ▸ h.regular.counted
  cases attempt with
  | waits _ count =>
    obtain ⟨regular, same⟩ := uncounted count
    exact ⟨regular, same ▸ h.within, by rw [same, if_pos count, Nat.add_zero]⟩
  | starts _ _ _ count =>
    obtain ⟨regular, same⟩ := uncounted count
    exact ⟨regular, same ▸ h.within, by rw [same, if_pos count, Nat.add_zero]⟩
  | retries _ failed left _ count =>
    have more : retried (record node p s) < n := by
      rw [← most, ← same failed]
      exact left
    have one : retried (applyDecision x.decide (record node p s))
        = retried (record node p s) + 1 := by
      rw [retried, counted count, Entries.get?_insert_self]
      rfl
    refine ⟨⟨h.regular.dated, ?_, ?_⟩, by omega, by rw [one, count, if_neg nofun]⟩
    · exact counted count ▸ h.regular.sorted.insert _ _
    · rw [counted count]
      intro e he
      rcases Entries.mem_of_mem_insert he with rfl | he
      · exact Nat.lt_of_le_of_lt more bounded
      · exact h.regular.counted e he

omit [World W] in
theorem credit_le_one (node p : String) (s : Monitor W) : credit node p s ≤ 1 := by
  unfold credit
  split <;> decide

omit [World W] in
/-- Waiting gives nothing back, unless a failure is forgotten. -/
theorem credit_le_of_waits {x : Service.Situation} {edit : Service.Monitor → Service.Monitor}
    (written : Written node p edit s s') (state : ∀ m, (edit m).state = x.decide.state)
    (seen : x.monitor = record node p s ∨ x.forgets)
    (kept : x.monitor.state = .startFailed → x.decide.state = .startFailed ∨ x.forgets) :
    credit node p s' ≤ credit node p s
      + if x.forgets ∧ (record node p s).state = .startFailed then 1 else 0 := by
  have room := credit_le_one node p s'
  by_cases busy : (Entries.get? s.running p).isSome
  · have spent : credit node p s' = 0 := if_pos (.inl (written.running ▸ busy))
    omega
  by_cases failed : (record node p s).state = .startFailed
  · by_cases forgets : x.forgets
    · rw [if_pos ⟨forgets, failed⟩]
      omega
    · have remembered := (kept (by rw [seen.resolve_right forgets, failed])).resolve_right forgets
      have spent : credit node p s' = 0 :=
        if_pos (.inr (by rw [written.alike.state, state, remembered]))
      omega
  · have full : credit node p s = 1 := if_neg (by simp [busy, failed])
    omega

omit [World W] in
/-- A service that is never up, and of which nothing is asked, lingers. -/
theorem Held.lingers (h : Held n node p s) {x : Service.Situation}
    (recorded : x.monitor = record node p s ∨ x.monitor = Service.Monitor.blank ∧ x.forgets)
    (kept : x.config.orchestration = .ha) (down : x.avail.isRunning = false) : x.Lingers := by
  refine ⟨kept, down, ?_, ?_⟩
  · rcases recorded with same | ⟨blank, -⟩
    · exact same ▸ h.unasked
    · exact blank ▸ rfl
  · rcases recorded with same | ⟨blank, -⟩
    · exact same ▸ h.fresh
    · exact blank ▸ rfl

/-- Orchestrating a service is to write down what is decided, to note it, and to
do what is wanted. -/
theorem orchestrate_run (hv : v.localNode = node)
    (config : v.localData?.bind (fun d => Entries.get? d.configs p) = some c)
    {x : Service.Situation} (hx : x = serviceSituation s v o at_ p c) (now : Float) {changed : Bool}
    (stored : mutate (Node.Blob.updateInstanceMonitor node p at_ (applyDecision x.decide)) s
      = .ok changed t) :
    ∃ u, orchestrate at_ now v o p s = launchWanted at_ now x.decide.action u
      ∧ u.daemon = t.daemon ∧ u.running = t.running := by
  obtain ⟨u, noted, daemon, running⟩ := when_emit_run (c := x.decide.state ≠ x.monitor.state)
    (.service p x.monitor.state x.decide.state x.decide.reason)
    (fun _ => launchWanted at_ now x.decide.action) t
  refine ⟨u, ?_, daemon, running⟩
  subst hx hv
  rw [orchestrate_eq config]
  exact (bind_ok stored).trans noted

/-- An attempt that is decided takes the credit. -/
theorem Held.spends {u : Monitor W} (held : Held n node p u) (full : credit node p s = 1)
    (same : retried (record node p u) = retried (record node p s)) (finite : at_.isFinite = true)
    (now : Float) (forgotten : Nat) :
    ∃ r s', launchWanted at_ now (some (.whole p .start)) u = .ok r s' ∧ Held n node p s'
      ∧ Ledger node p s s' 1 forgotten := by
  obtain ⟨b, s', launched, held', spent, counted⟩ := held.launched finite now
  refine ⟨if b then some (.whole p .start) else none, s', ?_, held', ?_⟩
  · refine (bind_ok launched).trans ?_
    cases b <;> rfl
  · unfold Ledger
    omega

/-- **A service is decided about**: an attempt takes the credit that was there, a
retry that is counted gives it back, and so does a failure that is forgotten. -/
theorem Held.decided (h : Held n node p s) (finite : at_.isFinite = true) (now : Float)
    (bounded : n < twoTo 32) (hv : v.localNode = node)
    (config : v.localData?.bind (fun d => Entries.get? d.configs p) = some c)
    (seen : ∀ i, v.instance? node p = some i → i.monitor = record node p s)
    {x : Service.Situation} (hx : x = serviceSituation s v o at_ p c)
    (kept : x.config.orchestration = .ha) (most : x.maxStartRetries = n)
    (down : x.avail.isRunning = false) :
    ∃ r s', orchestrate at_ now v o p s = .ok r s' ∧ Held n node p s'
      ∧ Ledger node p s s' (if x.decide.action = some (.whole p .start) then 1 else 0)
        (if x.forgets ∧ (record node p s).state = .startFailed then 1 else 0) := by
  have record_ : x.monitor = record node p s ∨ x.monitor = Service.Monitor.blank ∧ x.forgets :=
    hx ▸ recorded hv seen
  -- whatever the record has that a blank one has not is seen
  have same {state : Service.State} (state_ : x.monitor.state = state) (ne : state ≠ .idle) :
      x.monitor = record node p s :=
    record_.resolve_right fun blank => ne (state_.symm.trans (by rw [blank.1]; rfl))
  obtain ⟨attempt, plain⟩ := x.attempt_decide (h.lingers record_ kept down)
  obtain ⟨regular, within, counted⟩ := h.next bounded most attempt plain
    fun failed => same failed (by decide)
  obtain ⟨changed, t, stored, sound, written⟩ :=
    h.write finite (applyDecision x.decide) regular
  have unasked : (applyDecision x.decide (record node p s)).globalExpect = none := by
    show (if _ then none else _) = none
    rw [h.unasked, ite_self]
  have held := h.written sound written unasked
    ((retries_applyDecision plain _).1.trans h.fresh) within
  have recounted : retried (record node p t) = retried (record node p s)
      + if x.decide.countRetry = none then 0 else 1 := by
    rw [← counted, retried, retried, written.alike.retries]
  obtain ⟨u, run, daemon, running⟩ := orchestrate_run hv config hx now stored
  obtain ⟨heldU, passed⟩ := held.congr daemon (by rw [running])
    (sound.congr (daemon ▸ sound.daemon) running)
  rw [run]
  cases attempt with
  | waits action count remembered =>
    have spare := credit_le_of_waits written (fun _ => rfl) (record_.imp_right And.right) remembered
    rw [action, if_neg nofun]
    rw [if_pos count] at recounted
    have waited : Ledger node p s t 0
        (if x.forgets ∧ (record node p s).state = .startFailed then 1 else 0) := by
      unfold Ledger
      omega
    exact ⟨none, u, rfl, heldU, waited.trans passed⟩
  | retries _ _ _ action count =>
    have room := credit_le_one node p t
    rw [action, if_neg nofun]
    rw [count, if_neg nofun] at recounted
    have paid : Ledger node p s t 0
        (if x.forgets ∧ (record node p s).state = .startFailed then 1 else 0) := by
      unfold Ledger
      omega
    exact ⟨none, u, rfl, heldU, paid.trans passed⟩
  | starts idle ready action count =>
    have path : x.path = p := hx ▸ rfl
    have full : credit node p s = 1 := by
      have free : Entries.get? s.running p = none := by
        rw [hx] at idle
        exact Option.map_eq_none_iff.1 idle
      have unfailed : (record node p s).state ≠ .startFailed := by
        rw [← same ready (by decide), ready]
        decide
      exact if_neg (by simp [free, unfailed])
    have uncounted : retried (record node p u) = retried (record node p s) := by
      rw [if_pos count, Nat.add_zero] at recounted
      rw [← recounted, record, record, daemon]
    rw [action, path, if_pos rfl]
    exact heldU.spends full uncounted finite now _

end HaCluster.Monitor
