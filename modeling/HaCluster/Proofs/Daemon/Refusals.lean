import HaCluster.Api.Reply
import HaCluster.Proofs.Node.Blob
import HaCluster.Proofs.Store.Atomic

/-!
# What is refused changes nothing

A local edit of the store that fails, and a request that a daemon refuses,
leave the tree, the queue of the journal and the trust in the peers as they
were (`unchanged_of_error`). The tree may have any shape: a peer's message can
put anything in the place of a node's blob, and a request that finds no mapping
where it needs one is refused.

The mutations of the blob are sequences, and atomic for the reason that
`Mutation.Fills` states: either every mapping on the way is there and nothing
is made, or what is made is empty and takes what is written into it. A new
status document also drops the keys that it does not have; a mapping of the
tree has each of its keys once, so this cannot fail.
-/

namespace HaCluster

open Value Mutation

namespace Node.Blob

variable {β : Type} {s : Store} {node p : String}

theorem atomic_updateMonitor {at_ : Float} {edit : Node.Monitor → Node.Monitor} :
    Atomic (updateMonitor node at_ edit) s := by
  intro e s' failed
  unfold updateMonitor at failed
  dsimp only at failed
  split at failed
  · cases failed
  · exact atomic_set.answer _ e s' failed

/-! ## Instances -/

/-- What is written after the document of an instance was made, if it had none,
is atomic with it. -/
theorem atomic_ensureInstance {f : Unit → Mutation β}
    (rest : Fills (Layout.serviceStatus node p) s (f ())) :
    Atomic (ensureInstance node p >>= f) s := by
  simp only [ensureInstance, bind_assoc, pure_bind]
  exact atomic_make fun _ => fills_make fun _ => fills_make fun _ => rest

theorem fills_writeInstanceMonitor {at_ : Float} {edit : Service.Monitor → Service.Monitor} :
    Fills (Layout.serviceStatus node p) s (writeInstanceMonitor node p at_ edit) where
  atomic := by
    intro e s' failed
    unfold writeInstanceMonitor at failed
    dsimp only at failed
    split at failed
    · cases failed
    · exact atomic_set.answer _ e s' failed
  takes := by
    intro t h
    unfold writeInstanceMonitor
    dsimp only
    split
    · exact ⟨_, t, rfl, trivial⟩
    · exact takes_bind takes_setKey (fun _ => takes_pure _ fun _ _ => trivial) t h.hasMap

theorem atomic_updateInstanceMonitor {at_ : Float} {edit : Service.Monitor → Service.Monitor} :
    Atomic (updateInstanceMonitor node p at_ edit) s :=
  atomic_ensureInstance fills_writeInstanceMonitor

theorem keysAt_of_not_hasMap {q : Path} (h : ¬ HasMap q s) : keysAt s q = [] := by
  unfold keysAt Store.getD
  cases found : s.data.lookup q with
  | none => rfl
  | some v =>
    cases v with
    | map m => exact absurd ⟨m, found⟩ h
    | _ => rfl

/-- A document that is a proper mapping can be replaced. -/
theorem takes_replaceKeys {doc new : Entries Value} (sorted : Entries.Sorted doc) :
    Takes (fun t => t.data.lookup (Layout.serviceStatus node p) = some (.map doc))
      (do
        dropOldKeys node p new (keysAt (← get) (Layout.serviceStatus node p))
        let _ ← Store.merge (Layout.serviceStatus node p) (Entries.erase new "monitor"))
      (fun _ => True) := by
  refine takes_get_bind fun s => takes_bind (Q := HasMap (Layout.serviceStatus node p)) ?_
    fun _ => takes_bind Store.takes_merge fun _ => takes_pure _ fun _ _ => trivial
  rintro t ⟨rfl, hdoc⟩
  rw [keysAt_of_lookup hdoc]
  obtain ⟨u, t', dropped, -, doc', hdoc'⟩ := takes_dropOldKeys (I := fun _ => True)
    (fun h _ => h) (nodup_keys sorted) t
    ⟨trivial, doc, hdoc, fun _ => Entries.isSome_get?_iff.2⟩
  exact ⟨u, t', dropped, doc', hdoc'⟩

theorem atomic_replaceStatus {new : Entries Value} (sorted : s.data.Sorted) :
    Atomic (replaceStatus node p new) s := by
  refine atomic_ensureInstance ⟨?_, takes_replaceKeys Entries.Sorted.nil⟩
  by_cases h : HasMap (Layout.serviceStatus node p) s
  · obtain ⟨doc, hdoc⟩ := h
    exact (takes_replaceKeys (Value.Sorted.entries (sorted.lookup hdoc))).atomic hdoc
  · show Atomic (dropOldKeys node p new (keysAt s (Layout.serviceStatus node p)) >>= _) s
    rw [keysAt_of_not_hasMap h]
    exact Store.atomic_merge.answer _

/-! ## Configurations -/

theorem atomic_publishConfig {config : Value} : Atomic (publishConfig node p config) s := by
  refine atomic_make fun _ => fills_make fun _ => ⟨atomic_set.answer _, ?_⟩
  intro t h
  exact takes_bind takes_setKey (fun _ => takes_pure _ fun _ _ => trivial) t h.hasMap

theorem atomic_withdrawConfig : Atomic (withdrawConfig node p) s :=
  atomic_unsetIfPresent.answer _

end Node.Blob

namespace Daemon

variable {ε α β : Type} {d : Daemon}

/-! ## Requests -/

/-- Where a step is refused, it leaves the store and the trust in the peers as
they were. -/
def Harmless (m : Step ε α) (d : Daemon) : Prop :=
  ∀ why d', m d = .error why d' → d'.store = d.store ∧ d'.peers = d.peers

theorem harmless_throw (e : ε) : Harmless (throw e : Step ε α) d := by
  intro why d' refused
  cases refused
  exact ⟨rfl, rfl⟩

/-- What follows a step and cannot be refused does no harm to it. -/
theorem harmless_bind {m : Step ε α} {f : α → Step ε β} (first : Harmless m d)
    (never : ∀ a t, ∃ b u, f a t = .ok b u) : Harmless (m >>= f) d := by
  intro why d' refused
  rcases bind_eq_error refused with refused | ⟨a, t, -, refused⟩
  · exact first why d' refused
  · obtain ⟨b, u, done⟩ := never a t
    cases done.symm.trans refused

theorem harmless_mutate {m : Mutation α} (h : Atomic m d.store) : Harmless (mutate m) d := by
  intro why d' refused
  unfold mutate at refused
  cases result : m d.store with
  | error e s =>
    rw [result] at refused
    cases refused
    exact ⟨h _ _ result, rfl⟩
  | ok a s =>
    rw [result] at refused
    cases refused

theorem harmless_mutating {m : Mutation α} (h : Atomic m d.store) : Harmless (mutating m) d := by
  intro why d' refused
  unfold mutating at refused
  cases result : mutate m d with
  | error e t =>
    rw [result] at refused
    cases refused
    exact harmless_mutate h _ _ result
  | ok a t =>
    rw [result] at refused
    cases refused

theorem harmless_setNodeMonitor (u : Node.Update) (at_ : Float) :
    Harmless (setNodeMonitor u at_) d :=
  harmless_bind (m := mutating (Node.Blob.updateMonitor d.nodeName at_ u.apply))
    (harmless_mutating Node.Blob.atomic_updateMonitor) fun _ _ => ⟨_, _, rfl⟩

theorem harmless_setInstanceMonitor (p : String) (u : Service.Update) (at_ : Float) :
    Harmless (setInstanceMonitor p u at_) d :=
  harmless_bind (m := mutating (Node.Blob.updateInstanceMonitor d.nodeName p at_ u.apply))
    (harmless_mutating Node.Blob.atomic_updateInstanceMonitor) fun _ _ => ⟨_, _, rfl⟩

theorem harmless_postStatus (p : String) (doc : Value) (sorted : d.store.data.Sorted) :
    Harmless (postStatus p doc) d := by
  cases doc with
  | map new =>
    show Harmless (mutate (Node.Blob.replaceStatus d.nodeName p new)) d
    exact harmless_mutate (Node.Blob.atomic_replaceStatus sorted)
  | _ => exact harmless_throw _

theorem harmless_postConfig (p : String) (config : Value) : Harmless (postConfig p config) d := by
  unfold postConfig
  split
  · exact harmless_throw _
  · split
    · exact harmless_bind (m := mutating (Node.Blob.publishConfig d.nodeName p config))
        (harmless_mutating Node.Blob.atomic_publishConfig) fun _ _ => ⟨_, _, rfl⟩
    · exact harmless_throw _

theorem harmless_removeService (p : String) : Harmless (removeService p) d :=
  harmless_bind (m := mutating (Node.Blob.withdrawConfig d.nodeName p))
    (harmless_mutating Node.Blob.atomic_withdrawConfig) fun _ _ => ⟨_, _, rfl⟩

theorem harmless_stop (at_ : Float) : Harmless (stop at_) d := by
  intro why d' refused
  unfold stop at refused
  cases result : setNodeMonitor (Node.Update.enter .maintenance) at_ d with
  | ok a t =>
    rw [result] at refused
    cases refused
  | error e t =>
    rw [result] at refused
    cases refused
    have left := harmless_setNodeMonitor (Node.Update.enter .maintenance) at_ _ t result
    exact left

/-- A request that is refused leaves the store and the trust in the peers as
they were. -/
theorem harmless_serve (now : Moment) (r : Request) (sorted : d.store.data.Sorted) :
    Harmless (serve now r) d := by
  cases r with
  | setNode u => exact harmless_bind (harmless_setNodeMonitor u _) fun _ _ => ⟨_, _, rfl⟩
  | setInstance p u =>
    exact harmless_bind (harmless_setInstanceMonitor p u _) fun _ _ => ⟨_, _, rfl⟩
  | postStatus p doc =>
    intro why d' refused
    unfold serve at refused
    dsimp only at refused
    cases result : postStatus p doc d with
    | ok a t =>
      rw [result] at refused
      cases refused
    | error e t =>
      rw [result] at refused
      cases refused
      exact harmless_postStatus p doc sorted _ _ result
  | postConfig p config =>
    cases config with
    | some config => exact harmless_bind (harmless_postConfig p config) fun _ _ => ⟨_, _, rfl⟩
    | none => exact harmless_bind (harmless_removeService p) fun _ _ => ⟨_, _, rfl⟩
  | peerMessage peer m => exact fun _ _ refused => nomatch refused
  | fullSync => exact fun _ _ refused => nomatch refused
  | clusterStatus => exact fun _ _ refused => nomatch refused
  | summary => exact fun _ _ refused => nomatch refused
  | stop => exact harmless_bind (harmless_stop _) fun _ _ => ⟨_, _, rfl⟩

/-- **What fails changes nothing.** An edit of a store that fails leaves the
store as it was, whatever its tree and its journal are. A request that a
daemon refuses leaves its tree, what its journal has queued and its trust in
its peers as they were, whatever the tree holds: that its mappings are in
order is true of every mapping. -/
theorem unchanged_of_error :
    (∀ (edit : Store.Edit) (e : DataError) (s s' : Store),
      edit.attempt s = .error e s' → s' = s)
    ∧ ∀ (now : Moment) (r : Request) (why : Refusal) (d d' : Daemon), d.store.data.Sorted →
      serve now r d = .error why d' →
        d'.store.data = d.store.data ∧ d'.store.queue = d.store.queue ∧ d'.peers = d.peers := by
  constructor
  · intro edit e s s' failed
    exact edit.atomic_attempt s e s' failed
  · intro now r why d d' sorted refused
    obtain ⟨store, peers⟩ := harmless_serve now r sorted why d' refused
    rw [store]
    exact ⟨rfl, rfl, peers⟩

/-- A node whose services are no mapping, as after a message that was sent in
its name: the record of an instance cannot be written, and nothing is. -/
theorem unchanged_of_error_noServices :
    let blob : Value := .map [("services", .null)]
    let data : Value := .map [("cluster", .map [("nodes", .map [("n1", blob)])])]
    let d : Daemon := { (default : Daemon) with
      nodeName := "n1", store := .new data (some (journalOf "n1")) }
    let merge : Store.Edit := .merge ((Layout.services "n1").key "status") [("svc", .null)]
    (∃ e s', merge.attempt d.store = .error e s' ∧ s' = d.store)
      ∧ ∃ why d', serve (.ofMillis 0) (.setInstance "svc" .none) d = .error why d'
        ∧ d'.store.data = d.store.data ∧ d'.store.queue = d.store.queue ∧ d'.peers = d.peers := by
  intro blob data d merge
  refine ⟨⟨_, _, rfl, unchanged_of_error.1 merge _ d.store _ rfl⟩, _, _, rfl,
    unchanged_of_error.2 (.ofMillis 0) (.setInstance "svc" .none) _ d _ ?_ rfl⟩
  simp [d, data, blob, Store.new, Everywhere, EverywhereEntries, isSorted, Entries.Sorted,
    Entries.keys]

end Daemon

end HaCluster
