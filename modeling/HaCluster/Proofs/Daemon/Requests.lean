import HaCluster.Api.Reply
import HaCluster.Proofs.Node.Blob

/-!
# What requests leave alone

A daemon serves clients and peers between the rounds of its monitor. Whatever
it is asked, and whether it refuses or not, its blob keeps its shape and the
node keeps its name, as long as nobody speaks for the node itself: a message is
one of another node.
-/

namespace HaCluster.Daemon

open Value Mutation

variable {ε α β : Type} {I : Daemon → Prop}

/-! ## Steps of a daemon -/

/-- The daemon that a step leaves, whether it failed or not. -/
def Step.after (m : Step ε α) (d : Daemon) : Daemon :=
  match m d with
  | .ok _ d' => d'
  | .error _ d' => d'

/-- A step keeps a property, whether it fails or not. -/
def Preserves (I : Daemon → Prop) (m : Step ε α) : Prop := ∀ d, I d → I (Step.after m d)

theorem preserves_pure (a : α) : Preserves I (pure a : Step ε α) := fun _ h => h

theorem preserves_throw (e : ε) : Preserves I (throw e : Step ε α) := fun _ h => h

theorem preserves_bind {m : Step ε α} {f : α → Step ε β} (hm : Preserves I m)
    (hf : ∀ a, Preserves I (f a)) : Preserves I (m >>= f) := by
  intro d hd
  have first := hm d hd
  unfold Step.after at first ⊢
  show I (match EStateM.bind m f d with | .ok _ d' => d' | .error _ d' => d')
  unfold EStateM.bind
  cases h : m d with
  | error e d' =>
    rw [h] at first
    exact first
  | ok a d' =>
    rw [h] at first
    exact hf a d' first

/-- A step that reads the daemon, and then acts on what it has read. -/
theorem preserves_get_bind {f : Daemon → Step ε β} (hf : ∀ d, I d → I (Step.after (f d) d)) :
    Preserves I (get >>= f) := hf

/-- A mutation changes the store, and nothing else of the daemon. -/
theorem mutate_eq_ok_iff {d d' : Daemon} {m : Mutation α} {a : α} :
    mutate m d = .ok a d' ↔ m d.store = .ok a d'.store ∧ d' = { d with store := d'.store } := by
  unfold mutate
  constructor
  · intro run
    cases result : m d.store <;> rw [result] at run <;> cases run
    exact ⟨rfl, rfl⟩
  · rintro ⟨run, only⟩
    rw [run]
    exact congrArg (EStateM.Result.ok a) only.symm

/-- A change that is made wakes the monitor if something changed. -/
theorem mutating_wakeIf {d : Daemon} {m : Mutation Bool} {changed : Bool} {s : Store}
    (made : m d.store = .ok changed s) :
    (mutating m >>= wakeIf) d = .ok changed
      (if changed then { d with store := s }.wake else { d with store := s }) := by
  have stored : mutating m d = .ok changed { d with store := s } := by
    unfold mutating mutate
    rw [made]
  exact bind_ok stored

/-- What is left of a change that is made. -/
theorem mutating_wakeIf_eq_ok {d d' : Daemon} {m : Mutation Bool} {changed : Bool}
    (run : (mutating m >>= wakeIf) d = .ok changed d') :
    m d.store = .ok changed d'.store ∧ d'.nodeName = d.nodeName := by
  cases made : m d.store with
  | error e s =>
    have failed : mutating m d = .error (.data e) { d with store := s } := by
      unfold mutating mutate
      rw [made]
    cases (bind_error failed).symm.trans run
  | ok answer s =>
    rw [mutating_wakeIf made] at run
    cases answer <;> cases run <;> exact ⟨rfl, rfl⟩

/-! ## Soundness -/

variable {R : String → Entries Value → Prop} {node peer p : String} {d : Daemon}

/-- The daemon is that of a node, and the blob of the node has its shape. -/
structure Sound (R : String → Entries Value → Prop) (node : String) (d : Daemon) : Prop where
  name : d.nodeName = node
  shaped : Node.Blob.Shaped R node d.store

/-- What a daemon starts with is sound. -/
theorem sound_start (R : String → Entries Value → Prop) (settings : Settings)
    (file : Option String) (now : Float) :
    Sound R settings.nodeName (start settings file now) where
  name := rfl
  shaped := by
    refine ⟨⟨[], ?_, fun e he => by cases he⟩, [], ?_, Entries.Sorted.nil⟩ <;>
    simp [start, Store.new, Node.Blob.statuses, Node.Blob.configs, Layout.services, Layout.node,
      Layout.nodes, Path.key, Path.child, Path.ofKeys, lookup, step?, Entries.get?,
      Node.emptyBlob, Value.empty]

/-- A mutation that keeps the shape succeeds, and changes nothing but the
store. -/
theorem Sound.mutate (h : Sound R node d) {m : Mutation α} (keeps : Node.Blob.Keeps R node m) :
    ∃ a s, Daemon.mutate m d = .ok a { d with store := s } ∧ Node.Blob.Shaped R node s := by
  obtain ⟨a, s, hm, shaped⟩ := keeps d.store h.shaped
  refine ⟨a, s, ?_, shaped⟩
  unfold Daemon.mutate
  rw [hm]

theorem preserves_mutate {m : Mutation α} (keeps : Node.Blob.Keeps R node m) :
    Preserves (Sound R node) (Daemon.mutate m) := by
  intro d h
  obtain ⟨a, s, hm, shaped⟩ := h.mutate keeps
  unfold Step.after
  rw [hm]
  exact ⟨h.name, shaped⟩

theorem preserves_mutating {m : Mutation α} (keeps : Node.Blob.Keeps R node m) :
    Preserves (Sound R node) (mutating m) := by
  intro d h
  obtain ⟨a, s, hm, shaped⟩ := h.mutate keeps
  unfold Step.after mutating
  rw [hm]
  exact ⟨h.name, shaped⟩

theorem preserves_wakeIf (changed : Bool) : Preserves (Sound R node) (wakeIf changed) := by
  intro d h
  cases changed <;> exact ⟨h.name, h.shaped⟩

theorem preserves_modify_wake :
    Preserves (Sound R node) (modify wake : Step ε PUnit) :=
  fun _ h => ⟨h.name, h.shaped⟩

/-- Settings that are read again are those of the same node. -/
theorem preserves_reloadSettings (load : String → Except SettingsError Settings) :
    Preserves (Sound R node) (reloadSettings load) := by
  intro d h
  unfold Step.after reloadSettings
  dsimp only
  cases d.settingsChanged with
  | false => exact h
  | true =>
    cases d.settingsFile with
    | none => exact ⟨h.name, h.shaped⟩
    | some file =>
      rw [if_pos rfl]
      dsimp only
      cases load file <;> exact ⟨h.name, h.shaped⟩

/-! ## What is asked -/

theorem preserves_setNodeMonitor (u : Node.Update) (at_ : Float) :
    Preserves (Sound R node) (setNodeMonitor u at_) :=
  preserves_get_bind fun d h => by
    rw [h.name]
    exact preserves_bind (preserves_mutating (Node.Blob.keeps_updateMonitor at_ u.apply))
      preserves_wakeIf d h

theorem preserves_setInstanceMonitor (rule : Node.Blob.Rule R) (p : String) (u : Service.Update)
    (at_ : Float) : Preserves (Sound R node) (setInstanceMonitor p u at_) :=
  preserves_get_bind fun d h => by
    rw [h.name]
    exact preserves_bind
      (preserves_mutating (Node.Blob.keeps_updateInstanceMonitor rule at_ u.apply))
      preserves_wakeIf d h

theorem preserves_postStatus (rule : Node.Blob.Rule R) {doc : Value}
    (accepts : ∀ new, doc = .map new → Node.Blob.Accepts R p new) :
    Preserves (Sound R node) (postStatus p doc) :=
  preserves_get_bind fun d h => by
    rw [h.name]
    cases doc with
    | map new => exact preserves_mutate (Node.Blob.keeps_replaceStatus rule (accepts new rfl)) d h
    | _ => exact h

theorem preserves_postConfig (p : String) (config : Value) :
    Preserves (Sound R node) (postConfig p config) := by
  unfold postConfig
  split
  · exact preserves_throw _
  · split
    · refine preserves_get_bind fun d h => ?_
      rw [h.name]
      exact preserves_bind (preserves_mutating (Node.Blob.keeps_publishConfig p config))
        (fun _ => preserves_modify_wake) d h
    · exact preserves_throw _

theorem preserves_removeService (p : String) : Preserves (Sound R node) (removeService p) :=
  preserves_get_bind fun d h => by
    rw [h.name]
    exact preserves_bind (preserves_mutating (Node.Blob.keeps_withdrawConfig p))
      (fun _ => preserves_modify_wake) d h

theorem preserves_stop (at_ : Float) : Preserves (Sound R node) (stop at_) := by
  intro d h
  have left := preserves_setNodeMonitor (Node.Update.enter .maintenance) at_ d h
  unfold Step.after at left ⊢
  unfold stop
  cases hd : setNodeMonitor (Node.Update.enter .maintenance) at_ d with
  | ok changed d' =>
    rw [hd] at left
    exact ⟨left.name, left.shaped⟩
  | error e d' =>
    rw [hd] at left
    exact ⟨left.name, left.shaped⟩

theorem Sound.receive (h : Sound R node d) (ne : peer ≠ node) (m : Message) :
    Sound R node (d.receive peer m).2 :=
  ⟨h.name, h.shaped.receive ne d.peers m⟩

/-- **Whatever is asked of a daemon leaves it sound**, if the messages are
those of other nodes and the status documents are acceptable. -/
theorem preserves_serve (rule : Node.Blob.Rule R) (now : Moment) {r : Request}
    (foreign : ∀ peer m, r = .peerMessage peer m → peer ≠ node)
    (accepts : ∀ p new, r = .postStatus p (.map new) → Node.Blob.Accepts R p new) :
    Preserves (Sound R node) (serve now r) := by
  cases r with
  | setNode u => exact preserves_bind (preserves_setNodeMonitor u _) fun _ => preserves_pure _
  | setInstance p u =>
    exact preserves_bind (preserves_setInstanceMonitor rule p u _) fun _ => preserves_pure _
  | postStatus p doc =>
    intro d h
    have left : Sound R node (Step.after (postStatus p doc) d) :=
      preserves_postStatus rule (fun new e => accepts p new (e ▸ rfl)) d h
    unfold Step.after at left ⊢
    unfold serve
    dsimp only
    cases hd : postStatus p doc d with
    | ok u d' =>
      rw [hd] at left
      exact left
    | error e d' =>
      rw [hd] at left
      exact left
  | postConfig p config =>
    cases config with
    | some config => exact preserves_bind (preserves_postConfig p config) fun _ => preserves_pure _
    | none => exact preserves_bind (preserves_removeService p) fun _ => preserves_pure _
  | peerMessage peer m =>
    refine preserves_bind (fun d h => ?_) fun _ => preserves_pure _
    exact h.receive (foreign peer m rfl) m
  | fullSync => exact fun d h => ⟨h.name, h.shaped.congr rfl⟩
  | clusterStatus => exact fun d h => h
  | summary => exact fun d h => ⟨h.name, h.shaped⟩
  | stop => exact preserves_bind (preserves_stop _) fun _ => preserves_pure _

end HaCluster.Daemon
