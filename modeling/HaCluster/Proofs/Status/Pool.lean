import HaCluster.Status.Pool

/-!
# No status is refreshed twice at a time

The monitor submits services and drains results, workers take services and finish reading
them, all in any order. A `Ledger` goes along with the pool and notes what the pool forgets:
which submits found their service idle, which results were produced, and which were drained.

What an event can do is said once (`Ledger.moves_next`). It keeps the books balanced
(`Ledger.Balanced`): every service that is queued waits, is being read or has a result that
was not drained, one of these and only once. If workers that are free take what waits, and
reads end, every submit that counts has its one result in the end (`refreshed_once`).
-/

namespace HaCluster.Status

/-- What may happen to a pool. -/
inductive Event where
  /-- The monitor submits a service. -/
  | submit (read : String → Reading) (now : Float) (service : String)
  /-- A worker takes a service, if it is free and one waits. -/
  | take
  /-- A worker sends the result of a service that it has read. -/
  | finish (r : Refreshed)
  /-- The monitor drains the results. -/
  | drain

namespace Pool

variable {p : Pool} {s : String}

/-- The services of the results that were not drained. -/
def ready (p : Pool) : List String := p.results.map Refreshed.service

/-- A service waits, is being read or has a result that was not drained. -/
def Outstanding (p : Pool) (s : String) : Prop :=
  s ∈ p.waiting ∨ s ∈ p.inProgress ∨ s ∈ p.ready

instance (p : Pool) (s : String) : Decidable (p.Outstanding s) :=
  inferInstanceAs (Decidable (_ ∨ _ ∨ _))

theorem outstanding_of_waits {before behind : List String}
    (waits : p.waiting = before ++ s :: behind) : p.Outstanding s :=
  .inl (waits ▸ List.mem_append_right _ List.mem_cons_self)

/-- What is being read is read still once a reading ends, but for that one. -/
theorem count_inProgress (reads : s ∈ p.inProgress) (t : String) :
    p.inProgress.count t = (p.inProgress.erase s).count t + [s].count t := by
  rw [← List.count_append]
  exact ((List.perm_cons_erase reads).trans (List.perm_append_singleton _ _).symm).count_eq t

/-- Queued after a drain is what was queued and had no result. -/
theorem mem_undrained : s ∈ p.queued.filter (fun t => !p.results.any (fun r => r.service = t))
    ↔ s ∈ p.queued ∧ s ∉ p.ready := by
  rw [List.mem_filter, ready, List.mem_map]
  simp

/-- A service that waited behind others has moved up: it is read if it was the first. -/
def MovedUp (p : Pool) (before : List String) (s : String) : Prop :=
  before = [] ∧ s ∈ p.inProgress
    ∨ ∃ t rest behind, before = t :: rest ∧ p.waiting = rest ++ s :: behind

end Pool

/-- A pool, and what has happened to it. -/
structure Ledger where
  pool : Pool
  /-- The services that were submitted while they were not outstanding. -/
  accepted : List String
  /-- The results that workers have sent. -/
  produced : List Refreshed
  /-- The results that the monitor has drained. -/
  drained : List Refreshed

namespace Ledger

variable {l l' : Ledger} {e : Event} {s : String}

/-- A pool that nothing has happened to. -/
def new (workers : Nat) : Ledger := ⟨.new workers, [], [], []⟩

/-- An event, and the note of it. -/
def next (l : Ledger) : Event → Ledger
  | .submit read now s =>
    { l with
      pool := l.pool.submit read now s
      accepted := if l.pool.Outstanding s then l.accepted else l.accepted ++ [s] }
  | .take => { l with pool := l.pool.take }
  | .finish r =>
    { l with
      pool := l.pool.finish r
      produced := if r.service ∈ l.pool.inProgress then l.produced ++ [r] else l.produced }
  | .drain =>
    { l with pool := l.pool.drain.2, drained := l.drained ++ l.pool.drain.1 }

/-- How many results of a service were produced. -/
def resultsOf (l : Ledger) (s : String) : Nat := (l.produced.map Refreshed.service).count s

/-! ## The books -/

/-- **The books are balanced.** -/
structure Balanced (l : Ledger) : Prop where
  /-- A service that is queued waits, is being read or has a result that was not drained:
  one of these, and once. Any other service is nowhere. -/
  outstanding (s : String) :
    l.pool.waiting.count s + l.pool.inProgress.count s + l.pool.ready.count s
      = if s ∈ l.pool.queued then 1 else 0
  /-- No service is counted twice. -/
  counted : l.pool.queued.Nodup
  /-- No result is lost, and none comes twice. -/
  results : l.produced = l.drained ++ l.pool.results
  /-- Every submit that counts has led to one result, or to one job that is not done. -/
  accepted (s : String) :
    l.accepted.count s = l.resultsOf s + l.pool.inProgress.count s + l.pool.waiting.count s
  /-- No worker reads two services. -/
  busy : l.pool.inProgress.length ≤ l.pool.workers

theorem balanced_new (workers : Nat) : (new workers).Balanced where
  outstanding _ := rfl
  counted := List.nodup_nil
  results := rfl
  accepted _ := rfl
  busy := Nat.zero_le _

/-- The services that are outstanding are those that are queued. -/
theorem Balanced.outstanding_iff (h : l.Balanced) (s : String) :
    l.pool.Outstanding s ↔ s ∈ l.pool.queued := by
  have once := h.outstanding s
  unfold Pool.Outstanding
  rw [← List.count_pos_iff, ← List.count_pos_iff (l := l.pool.inProgress),
    ← List.count_pos_iff (l := l.pool.ready)]
  split at once
  · next queued => exact iff_of_true (by omega) queued
  · next idle => exact iff_of_false (by omega) idle

/-! ## What an event does -/

/-- What an event can do: something, or nothing. -/
inductive Moves (l : Ledger) : Event → Ledger → Prop where
  | accepts (read : String → Reading) (now : Float) (s : String) (idle : s ∉ l.pool.queued) :
    Moves l (.submit read now s)
      { l with
        pool := { l.pool with
          queued := s :: l.pool.queued, waiting := l.pool.waiting ++ [s] }
        accepted := l.accepted ++ [s] }
  | ignores (read : String → Reading) (now : Float) (s : String) (queued : s ∈ l.pool.queued) :
    Moves l (.submit read now s) l
  | takes (s : String) (rest : List String) (waits : l.pool.waiting = s :: rest)
      (free : l.pool.inProgress.length < l.pool.workers) :
    Moves l .take
      { l with
        pool := { l.pool with waiting := rest, inProgress := l.pool.inProgress ++ [s] } }
  | stands (no : l.pool.waiting = [] ∨ l.pool.workers ≤ l.pool.inProgress.length) :
    Moves l .take l
  | finishes (r : Refreshed) (reads : r.service ∈ l.pool.inProgress) :
    Moves l (.finish r)
      { l with
        pool := { l.pool with
          inProgress := l.pool.inProgress.erase r.service, results := l.pool.results ++ [r] }
        produced := l.produced ++ [r] }
  | strays (r : Refreshed) (no : r.service ∉ l.pool.inProgress) : Moves l (.finish r) l
  | drains :
    Moves l .drain
      { l with
        pool := { l.pool with
          queued := l.pool.queued.filter (fun s => !l.pool.results.any (fun r => r.service = s))
          results := [] }
        drained := l.drained ++ l.pool.results }

/-- **What an event does**, if the books are balanced and there is a worker. -/
theorem moves_next (h : l.Balanced) (workers : 0 < l.pool.workers) (e : Event) :
    Moves l e (l.next e) := by
  cases e with
  | submit read now s =>
    unfold next Pool.submit
    dsimp only
    by_cases queued : s ∈ l.pool.queued
    · rw [if_pos (List.contains_iff_mem.2 queued), if_pos ((h.outstanding_iff s).2 queued)]
      exact .ignores read now s queued
    · rw [if_neg (fun h => queued (List.contains_iff_mem.1 h)), if_neg (Nat.ne_of_gt workers),
        if_neg (fun out => queued ((h.outstanding_iff s).1 out))]
      exact .accepts read now s queued
  | take =>
    unfold next Pool.take
    dsimp only
    split
    · next s rest waits =>
      split
      · next free => exact .takes s rest waits free
      · next full => exact .stands (.inr (Nat.not_lt.1 full))
    · next none => exact .stands (.inl none)
  | finish r =>
    unfold next Pool.finish
    dsimp only
    by_cases reads : r.service ∈ l.pool.inProgress
    · rw [if_pos (List.contains_iff_mem.2 reads), if_pos reads]
      exact .finishes r reads
    · rw [if_neg (fun h => reads (List.contains_iff_mem.1 h)), if_neg reads]
      exact .strays r reads
  | drain => exact .drains

/-! ## What every event keeps -/

theorem Moves.workers (move : Moves l e l') : l'.pool.workers = l.pool.workers := by
  cases move <;> rfl

/-- What has a result is nowhere else, so that a drain leaves nothing of it. -/
theorem Balanced.undrained (h : l.Balanced) (s : String) :
    l.pool.waiting.count s + l.pool.inProgress.count s
      = if s ∈ l.pool.queued ∧ s ∉ l.pool.ready then 1 else 0 := by
  have once := h.outstanding s
  by_cases ready : s ∈ l.pool.ready
  · have some := List.count_pos_iff.2 ready
    rw [if_neg (fun h => h.2 ready)]
    split at once <;> omega
  · have zero := List.count_eq_zero.2 ready
    by_cases queued : s ∈ l.pool.queued
    · rw [if_pos queued] at once
      rw [if_pos ⟨queued, ready⟩]
      omega
    · rw [if_neg queued] at once
      rw [if_neg (fun h => queued h.1)]
      omega

/-- **Every event keeps the books balanced.** -/
theorem Balanced.step (h : l.Balanced) (move : Moves l e l') : l'.Balanced := by
  cases move with
  | ignores | stands | strays => exact h
  | accepts read now s idle =>
    refine ⟨fun t => ?_, List.nodup_cons.2 ⟨idle, h.counted⟩, h.results, fun t => ?_, h.busy⟩
    · have once := h.outstanding t
      dsimp only [Pool.ready] at once ⊢
      rw [List.count_append, List.count_singleton]
      by_cases same : s = t
      · subst same
        rw [if_neg idle] at once
        simp only [beq_self_eq_true, if_true, List.mem_cons_self]
        omega
      · simp only [beq_iff_eq, same, if_false, List.mem_cons, Ne.symm same, false_or]
        omega
    · have once := h.accepted t
      dsimp only [resultsOf] at once ⊢
      rw [List.count_append, List.count_append]
      omega
  | takes s rest waits free =>
    refine ⟨fun t => ?_, h.counted, h.results, fun t => ?_, ?_⟩
    · have once := h.outstanding t
      dsimp only [Pool.ready] at once ⊢
      rw [waits, List.count_cons] at once
      rw [List.count_append, List.count_singleton]
      omega
    · have once := h.accepted t
      dsimp only [resultsOf] at once ⊢
      rw [waits, List.count_cons] at once
      rw [List.count_append, List.count_singleton]
      omega
    · rw [List.length_append]
      exact free
  | finishes r reads =>
    refine ⟨fun t => ?_, h.counted, ?_, fun t => ?_, ?_⟩
    · have once := h.outstanding t
      dsimp only [Pool.ready] at once ⊢
      rw [List.map_append, List.count_append, List.map_singleton]
      rw [Pool.count_inProgress reads] at once
      omega
    · show l.produced ++ [r] = l.drained ++ (l.pool.results ++ [r])
      rw [h.results, List.append_assoc]
    · have once := h.accepted t
      dsimp only [resultsOf] at once ⊢
      rw [List.map_append, List.count_append, List.map_singleton]
      rw [Pool.count_inProgress reads] at once
      omega
    · exact Nat.le_trans List.length_erase_le h.busy
  | drains =>
    refine ⟨fun t => ?_, h.counted.filter _, ?_, h.accepted, h.busy⟩
    · simp only [Pool.mem_undrained]
      exact h.undrained t
    · show l.produced = l.drained ++ l.pool.results ++ []
      rw [h.results, List.append_nil]

/-- While a service is outstanding, no submit of it counts. -/
theorem Moves.accepted (move : Moves l e l') (queued : s ∈ l.pool.queued) :
    l'.accepted.count s = l.accepted.count s := by
  cases move with
  | accepts read now t idle =>
    have other : t ≠ s := fun same => idle (same ▸ queued)
    dsimp only
    rw [List.count_append, List.count_singleton, beq_eq_false_iff_ne.2 other]
    rfl
  | _ => rfl

/-- A read goes on until it ends. -/
theorem Moves.reads (move : Moves l e l') (reads : s ∈ l.pool.inProgress)
    (other : ∀ r, e = .finish r → r.service ≠ s) : s ∈ l'.pool.inProgress := by
  cases move with
  | takes t rest waits free => exact List.mem_append_left _ reads
  | finishes r reads' => exact (List.mem_erase_of_ne (other r rfl).symm).2 reads
  | _ => exact reads

/-- When a read ends, its worker is free, and its service has as many results as submits of it
have counted. -/
theorem Balanced.finished (h : l.Balanced) {r : Refreshed} (move : Moves l (.finish r) l')
    (reads : r.service ∈ l.pool.inProgress) :
    l'.pool.inProgress.length < l.pool.inProgress.length
      ∧ l'.resultsOf r.service = l'.accepted.count r.service := by
  have once := (h.step move).outstanding r.service
  have balance := (h.step move).accepted r.service
  cases move with
  | strays _ no => exact absurd reads no
  | finishes =>
    constructor
    · have some := List.length_pos_of_mem reads
      dsimp only
      rw [List.length_erase_of_mem reads]
      omega
    · dsimp only [Pool.ready] at once balance ⊢
      rw [List.map_append, List.count_append, List.map_singleton, List.count_singleton_self] at once
      split at once <;> omega

/-- A service that waits moves up when another one is taken, and keeps its place when not. -/
theorem Moves.waits {before behind : List String} (move : Moves l e l')
    (waits : l.pool.waiting = before ++ s :: behind) :
    (e = .take ∧ l.pool.inProgress.length < l.pool.workers) ∧ l'.pool.MovedUp before s
      ∨ ¬ (e = .take ∧ l.pool.inProgress.length < l.pool.workers)
        ∧ ∃ behind', l'.pool.waiting = before ++ s :: behind' := by
  cases move with
  | accepts read now t idle =>
    refine .inr ⟨fun h => (by cases h.1), behind ++ [t], ?_⟩
    dsimp only
    rw [waits, List.append_assoc]
    rfl
  | takes t rest waits' free =>
    refine .inl ⟨⟨rfl, free⟩, ?_⟩
    rw [waits'] at waits
    cases before with
    | nil =>
      cases waits
      exact .inl ⟨rfl, List.mem_append_right _ List.mem_cons_self⟩
    | cons u before =>
      cases waits
      exact .inr ⟨_, _, behind, rfl, rfl⟩
  | stands no =>
    refine .inr ⟨fun h => ?_, behind, waits⟩
    rcases no with none | full
    · rw [none] at waits
      exact absurd waits.symm (List.append_ne_nil_of_right_ne_nil _ (List.cons_ne_nil _ _))
    · omega
  | _ => exact .inr ⟨fun h => (by cases h.1), behind, waits⟩

/-- Where nothing is taken, what waits goes on waiting, and reads can only end. -/
theorem Moves.untaken (move : Moves l e l')
    (no : e = .take → l.pool.workers ≤ l.pool.inProgress.length) :
    (l.pool.waiting ≠ [] → l'.pool.waiting ≠ [])
      ∧ l'.pool.inProgress.length ≤ l.pool.inProgress.length := by
  cases move with
  | accepts read now s idle =>
    exact ⟨fun _ => List.append_ne_nil_of_right_ne_nil _ (List.cons_ne_nil _ _), Nat.le_refl _⟩
  | takes s rest waits free => exact absurd free (Nat.not_lt.2 (no rfl))
  | finishes r reads => exact ⟨id, List.length_erase_le⟩
  | _ => exact ⟨id, Nat.le_refl _⟩

/-! ## Runs -/

/-- The ledger after so many events of a run. -/
def after (workers : Nat) (events : Nat → Event) : Nat → Ledger
  | 0 => new workers
  | n + 1 => (after workers events n).next (events n)

/-- **The workers run**: they take what waits and finish what they read. -/
structure Fair (workers : Nat) (events : Nat → Event) : Prop where
  /-- As long as services wait and a worker is free, one is taken some time. -/
  takes (n : Nat) : (∀ m, n ≤ m → (after workers events m).pool.waiting ≠ []
      ∧ (after workers events m).pool.inProgress.length < workers) →
    ∃ m, n ≤ m ∧ events m = .take
  /-- Every read ends some time. -/
  finishes (n : Nat) (s : String) : s ∈ (after workers events n).pool.inProgress →
    ∃ m r, n ≤ m ∧ events m = .finish r ∧ r.service = s

section

variable {workers : Nat} (events : Nat → Event) (some : 0 < workers)

include some

theorem balanced_after (n : Nat) :
    (after workers events n).Balanced ∧ (after workers events n).pool.workers = workers := by
  induction n with
  | zero => exact ⟨balanced_new workers, rfl⟩
  | succ n ih =>
    obtain ⟨balanced, same⟩ := ih
    have move := moves_next balanced (by rw [same]; exact some) (events n)
    exact ⟨balanced.step move, move.workers.trans same⟩

theorem moves_after (n : Nat) :
    Moves (after workers events n) (events n) (after workers events (n + 1)) := by
  obtain ⟨balanced, same⟩ := balanced_after events some n
  exact moves_next balanced (by rw [same]; exact some) (events n)

/-! ## What comes in the end -/

/-- From one moment on another one comes at which something is so, and no submit of a service
counts in between. -/
def Comes (workers : Nat) (events : Nat → Event) (s : String) (n : Nat) (P : Nat → Prop) : Prop :=
  ∃ m, n ≤ m ∧ P m
    ∧ (after workers events m).accepted.count s = (after workers events n).accepted.count s

variable {events} {n : Nat} {P Q : Nat → Prop}

omit some in
theorem Comes.now (now : P n) : Comes workers events s n P := ⟨n, Nat.le_refl n, now, rfl⟩

omit some in
theorem Comes.trans (comes : Comes workers events s n P)
    (goes : ∀ m, P m → Comes workers events s m Q) : Comes workers events s n Q := by
  obtain ⟨m, le, there, same⟩ := comes
  obtain ⟨k, le', there', same'⟩ := goes m there
  exact ⟨k, Nat.le_trans le le', there', same'.trans same⟩

/-- While a service is outstanding, what comes after the next event comes. -/
theorem Comes.later (outstanding : (after workers events n).pool.Outstanding s)
    (comes : Comes workers events s (n + 1) P) : Comes workers events s n P := by
  obtain ⟨m, le, there, same⟩ := comes
  have queued := ((balanced_after events some n).1.outstanding_iff s).1 outstanding
  exact ⟨m, Nat.le_of_succ_le le, there, same.trans ((moves_after events some n).accepted queued)⟩

/-- A read ends. -/
theorem comes_end (fair : Fair workers events)
    (reads : s ∈ (after workers events n).pool.inProgress) :
    Comes workers events s n (fun m => s ∈ (after workers events m).pool.inProgress
      ∧ ∃ r, events m = .finish r ∧ r.service = s) := by
  -- by induction on how long it takes; it may also end earlier
  obtain ⟨m, r, le, ends, same⟩ := fair.finishes n s reads
  obtain ⟨d, rfl⟩ := Nat.exists_eq_add_of_le le
  clear le
  induction d generalizing n with
  | zero => exact .now ⟨reads, r, ends, same⟩
  | succ d ih =>
    by_cases now : ∃ r, events n = .finish r ∧ r.service = s
    · exact .now ⟨reads, now⟩
    · have further := (moves_after events some n).reads reads fun r ends same => now ⟨r, ends, same⟩
      exact .later some (.inr (.inl reads)) (ih further (by rw [← ends]; congr 1; omega))

/-- A read gives its result. -/
theorem comes_result (fair : Fair workers events)
    (reads : s ∈ (after workers events n).pool.inProgress) :
    Comes workers events s n (fun m =>
      (after workers events m).resultsOf s = (after workers events m).accepted.count s) := by
  refine (comes_end some fair reads).trans fun m there => ?_
  obtain ⟨reads, r, ends, rfl⟩ := there
  have move := moves_after events some m
  rw [ends] at move
  exact .later some (.inr (.inl reads)) (.now ((balanced_after events some m).1.finished move reads).2)

/-- Where services wait, one is taken some time. -/
theorem exists_takes (fair : Fair workers events)
    (waits : (after workers events n).pool.waiting ≠ []) :
    ∃ m, n ≤ m ∧ events m = .take
      ∧ (after workers events m).pool.inProgress.length < workers := by
  refine Classical.byContradiction fun none => ?_
  have untaken (m : Nat) (le : n ≤ m) := (moves_after events some m).untaken
    fun take => by
      rw [(balanced_after events some m).2]
      exact Nat.not_lt.1 fun free => none ⟨m, le, take, free⟩
  have still (m : Nat) (le : n ≤ m) : (after workers events m).pool.waiting ≠ [] := by
    induction le with
    | refl => exact waits
    | step le ih => exact (untaken _ le).1 ih
  have fewer {k m : Nat} (le : n ≤ k) (le' : k ≤ m) :
      (after workers events m).pool.inProgress.length
        ≤ (after workers events k).pool.inProgress.length := by
    induction le' with
    | refl => exact Nat.le_refl _
    | step le' ih => exact Nat.le_trans (untaken _ (Nat.le_trans le le')).2 ih
  -- if all workers are busy, one of them is done some time
  obtain ⟨k, le, free⟩ : ∃ k, n ≤ k ∧ (after workers events k).pool.inProgress.length < workers := by
    by_cases free : (after workers events n).pool.inProgress.length < workers
    · exact ⟨n, Nat.le_refl n, free⟩
    · obtain ⟨s, reads⟩ := List.exists_mem_of_length_pos (Nat.lt_of_lt_of_le some (Nat.not_lt.1 free))
      obtain ⟨m, le, ⟨reads, r, ends, rfl⟩, -⟩ := comes_end some fair reads
      have move := moves_after events some m
      rw [ends] at move
      obtain ⟨balanced, same⟩ := balanced_after events some m
      have busy := balanced.busy
      have freed := (balanced.finished move reads).1
      exact ⟨m + 1, Nat.le_succ_of_le le, by omega⟩
  obtain ⟨m, le', take⟩ := fair.takes k fun m le' =>
    ⟨still m (Nat.le_trans le le'), Nat.lt_of_le_of_lt (fewer le le') free⟩
  exact none ⟨m, Nat.le_trans le le', take, Nat.lt_of_le_of_lt (fewer le le') free⟩

/-- A service that waits moves up. -/
theorem comes_up (fair : Fair workers events) {before behind : List String}
    (waits : (after workers events n).pool.waiting = before ++ s :: behind) :
    Comes workers events s n (fun m => (after workers events m).pool.MovedUp before s) := by
  -- by induction on how long it takes until one is taken
  obtain ⟨m, le, take, free⟩ := exists_takes (n := n) some fair
    (waits ▸ List.append_ne_nil_of_right_ne_nil _ (List.cons_ne_nil _ _))
  obtain ⟨d, rfl⟩ := Nat.exists_eq_add_of_le le
  clear le
  induction d generalizing n behind with
  | zero =>
    rcases (moves_after events some n).waits waits with ⟨-, up⟩ | ⟨no, -⟩
    · exact .later some (Pool.outstanding_of_waits waits) (.now up)
    · exact absurd ⟨take, by rw [(balanced_after events some n).2]; exact free⟩ no
  | succ d ih =>
    rcases (moves_after events some n).waits waits with ⟨-, up⟩ | ⟨-, behind', waits'⟩
    · exact .later some (Pool.outstanding_of_waits waits) (.now up)
    · rw [show n + (d + 1) = n + 1 + d by omega] at take free
      exact .later some (Pool.outstanding_of_waits waits) (ih waits' take free)

/-- A service that waits is read some time. -/
theorem comes_read (fair : Fair workers events) {before behind : List String}
    (waits : (after workers events n).pool.waiting = before ++ s :: behind) :
    Comes workers events s n (fun m => s ∈ (after workers events m).pool.inProgress) := by
  induction before generalizing n behind with
  | nil =>
    refine (comes_up some fair waits).trans fun m up => ?_
    rcases up with ⟨-, reads⟩ | ⟨t, rest, behind, head, -⟩
    · exact .now reads
    · cases head
  | cons t before ih =>
    refine (comes_up some fair waits).trans fun m up => ?_
    rcases up with ⟨none, -⟩ | ⟨t, rest, behind, head, waits⟩
    · cases none
    · cases head
      exact ih waits

/-- **Every submit that counts gets its result.** -/
theorem comes_even (fair : Fair workers events) (n : Nat) (s : String) :
    Comes workers events s n (fun m =>
      (after workers events m).resultsOf s = (after workers events m).accepted.count s) := by
  by_cases waits : s ∈ (after workers events n).pool.waiting
  · obtain ⟨before, behind, waits⟩ := List.append_of_mem waits
    exact (comes_read some fair waits).trans fun m reads => comes_result some fair reads
  · by_cases reads : s ∈ (after workers events n).pool.inProgress
    · exact comes_result some fair reads
    · have balance := (balanced_after events some n).1.accepted s
      rw [List.count_eq_zero.2 waits, List.count_eq_zero.2 reads] at balance
      exact .now balance.symm

/-- **No service is refreshed twice at a time, and every submit that counts once.** Whatever is
submitted, taken, read and drained, in any order: the books are balanced at every moment, so
that a service waits, is being read or has a result, one of these and once, exactly if it is
queued, and no result is lost or comes twice. A submit of a service that is outstanding does
nothing. If the workers run, it comes to a moment at which a service has exactly as many
results as submits of it have counted so far, before another one counts. -/
theorem refreshed_once (events : Nat → Event) :
    (∀ n, (after workers events n).Balanced)
      ∧ (∀ n read now s, (after workers events n).pool.Outstanding s →
        (after workers events n).pool.submit read now s = (after workers events n).pool)
      ∧ (Fair workers events → ∀ n s, ∃ m, n ≤ m
        ∧ (after workers events m).resultsOf s = (after workers events n).accepted.count s
        ∧ (after workers events m).accepted.count s = (after workers events n).accepted.count s) := by
  refine ⟨fun n => (balanced_after events some n).1, fun n read now s outstanding => ?_,
    fun fair n s => ?_⟩
  · have queued := ((balanced_after events some n).1.outstanding_iff s).1 outstanding
    exact if_pos (List.contains_iff_mem.2 queued)
  · obtain ⟨m, le, even, same⟩ := comes_even some fair n s
    exact ⟨m, le, even.trans same, same⟩

end

/-! ## Settling is a run -/

section

variable (read : String → Reading) (now : Float)

/-- What the workers do until nothing is left to read. -/
def settling (p : Pool) : List Event :=
  p.inProgress.map (fun s => .finish ⟨s, now, read s⟩)
    ++ p.waiting.flatMap (fun s => [.take, .finish ⟨s, now, read s⟩])

theorem pool_finishes {reads : List String} (reading : l.pool.inProgress = reads) :
    ((reads.map (fun s => Event.finish ⟨s, now, read s⟩)).foldl next l).pool
      = { l.pool with
        inProgress := []
        results := l.pool.results ++ reads.map (fun s => ⟨s, now, read s⟩) } := by
  induction reads generalizing l with
  | nil =>
    show l.pool = _
    rw [List.map_nil, List.append_nil, ← reading]
  | cons s reads ih =>
    have first : (l.next (.finish ⟨s, now, read s⟩)).pool
        = { l.pool with
          inProgress := reads
          results := l.pool.results ++ [⟨s, now, read s⟩] } := by
      unfold next Pool.finish
      simp [reading]
    rw [List.map_cons, List.foldl_cons, ih (congrArg Pool.inProgress first), first]
    simp

theorem pool_takes (workers : 0 < l.pool.workers) (none : l.pool.inProgress = [])
    {waits : List String} (waiting : l.pool.waiting = waits) :
    ((waits.flatMap (fun s => [Event.take, .finish ⟨s, now, read s⟩])).foldl next l).pool
      = { l.pool with
        waiting := []
        results := l.pool.results ++ waits.map (fun s => ⟨s, now, read s⟩) } := by
  induction waits generalizing l with
  | nil =>
    show l.pool = _
    rw [List.map_nil, List.append_nil, ← waiting]
  | cons s waits ih =>
    have first : ((l.next .take).next (.finish ⟨s, now, read s⟩)).pool
        = { l.pool with
          waiting := waits
          results := l.pool.results ++ [⟨s, now, read s⟩] } := by
      unfold next Pool.take Pool.finish
      simp [waiting, none, workers]
    rw [List.flatMap_cons, List.foldl_append, List.foldl_cons, List.foldl_cons, List.foldl_nil,
      ih (by rw [first]; exact workers) (by rw [first]; exact none)
        (congrArg Pool.waiting first), first]
    simp

/-- **A pool settles by what its workers do.** -/
theorem pool_settling (workers : 0 < l.pool.workers) :
    ((settling read now l.pool).foldl next l).pool = l.pool.settle read now := by
  have done := pool_finishes (l := l) read now rfl
  rw [settling, List.foldl_append, ← congrArg Pool.waiting done,
    pool_takes read now (by rw [done]; exact workers) (congrArg Pool.inProgress done) rfl, done]
  simp [Pool.settle]

end

/-! ## One service, again and again -/

/-- One service is submitted, taken, read and drained, and then submitted again. -/
def rounds (n : Nat) : Event :=
  match n % 4 with
  | 0 => .submit (fun _ => .ok none) 0 "a"
  | 1 => .take
  | 2 => .finish ⟨"a", 0, .ok none⟩
  | _ => .drain

theorem rounds_eq (k i : Nat) (h : i < 4) : rounds (4 * k + i) = rounds i := by
  unfold rounds
  rw [Nat.mul_add_mod, Nat.mod_eq_of_lt h]

theorem after_rounds (k i : Nat) (h : i < 4) :
    after 1 rounds (4 * k + i + 1) = (after 1 rounds (4 * k + i)).next (rounds i) :=
  congrArg (Ledger.next _) (rounds_eq k i h)

/-- What is read in a round, and what the round leaves. -/
theorem pool_round (idle : l.pool = .new 1) :
    (l.next (rounds 0)).pool.inProgress = []
      ∧ ((l.next (rounds 0)).next (rounds 1)).pool.inProgress = ["a"]
      ∧ (((l.next (rounds 0)).next (rounds 1)).next (rounds 2)).pool.inProgress = []
      ∧ ((((l.next (rounds 0)).next (rounds 1)).next (rounds 2)).next (rounds 3)).pool = .new 1 := by
  cases l
  cases idle
  exact ⟨rfl, rfl, rfl, rfl⟩

theorem pool_rounds (k : Nat) : (after 1 rounds (4 * k)).pool = .new 1 := by
  induction k with
  | zero => rfl
  | succ k ih =>
    rw [show 4 * (k + 1) = 4 * k + 3 + 1 by omega, after_rounds k 3 (by decide),
      after_rounds k 2 (by decide), after_rounds k 1 (by decide), after_rounds k 0 (by decide)]
    exact (pool_round ih).2.2.2

theorem inProgress_rounds (k : Nat) :
    (after 1 rounds (4 * k + 1)).pool.inProgress = []
      ∧ (after 1 rounds (4 * k + 2)).pool.inProgress = ["a"]
      ∧ (after 1 rounds (4 * k + 3)).pool.inProgress = [] := by
  obtain ⟨first, second, third, -⟩ := pool_round (pool_rounds k)
  rw [after_rounds k 2 (by decide), after_rounds k 1 (by decide), after_rounds k 0 (by decide)]
  exact ⟨first, second, third⟩

theorem fair_rounds : Fair 1 rounds where
  takes n _ := ⟨4 * n + 1, by omega, rounds_eq n 1 (by decide)⟩
  finishes n s reads := by
    obtain ⟨k, i, h, rfl⟩ : ∃ k i, i < 4 ∧ n = 4 * k + i :=
      ⟨n / 4, n % 4, Nat.mod_lt n (by decide), (Nat.div_add_mod n 4).symm⟩
    obtain ⟨first, second, third⟩ := inProgress_rounds k
    match i, h with
    | 0, _ => rw [Nat.add_zero, pool_rounds] at reads; cases reads
    | 1, _ => rw [first] at reads; cases reads
    | 2, _ =>
      rw [second] at reads
      exact ⟨4 * k + 2, _, Nat.le_refl _, rounds_eq k 2 (by decide), (List.mem_singleton.1 reads).symm⟩
    | 3, _ => rw [third] at reads; cases reads

/-- Two rounds are over: what was submitted twice has been read twice. While it was
outstanding, submitting it once more did nothing. -/
theorem refreshed_once_rounds :
    0 < 1 ∧ (after 1 rounds 8).Balanced ∧ Fair 1 rounds
      ∧ (after 1 rounds 1).pool.submit (fun _ => .ok none) 0 "a" = (after 1 rounds 1).pool
      ∧ (after 1 rounds 8).accepted = ["a", "a"]
      ∧ ∃ m, 8 ≤ m ∧ (after 1 rounds m).resultsOf "a" = 2 := by
  obtain ⟨balanced, outstanding, runs⟩ := refreshed_once Nat.one_pos rounds
  obtain ⟨m, le, even, -⟩ := runs fair_rounds 8 "a"
  exact ⟨by decide, balanced 8, fair_rounds, outstanding 1 _ 0 "a" (by decide), rfl, m, le, even⟩

end Ledger

end HaCluster.Status
