import HaCluster.Proofs.Node.Beside
import HaCluster.Proofs.Node.Recorded
import HaCluster.Proofs.Store.Frame
import HaCluster.Proofs.Store.Merge

/-!
# Taking in a status document

A document that is taken in replaces the one that was there, key by key: first the keys
that it does not have are dropped, then its entries are stored, each with a difference of
its own. Of the record of the service neither step knows anything. The old one stays, and
one that comes with the document is left out (`insertAll_eraseAll`).

What this comes to is one edit. In the tree in which the mapping of the documents was made,
if it was missing, the new document with the old record is stored in place of the old
document (`store_of_replaceStatus`), and nothing else is touched (`lookup_withStatuses`).
-/

namespace HaCluster.Node.Blob

open Value Store Mutation

variable {node p : String} {s t : Store} {v c : Value} {m doc : Entries Value}

/-- The tree with the mapping of the status documents, if it was missing. -/
def withStatuses (node : String) (v : Value) : Value :=
  (v.withMapping (Layout.services node)).withMapping (statuses node)

theorem data_makeStatuses (run : makeStatuses node s = .ok () t) :
    t.data = withStatuses node s.data := by
  obtain ⟨_, u, services, rest⟩ := bind_eq_ok run
  obtain ⟨_, t', documents, ended⟩ := bind_eq_ok rest
  cases ended
  rw [data_of_make documents, data_of_make services]
  rfl

theorem allKeys_serviceStatus (node p : String) : (Layout.serviceStatus node p).AllKeys :=
  Path.allKeys_ofKeys ["cluster", "nodes", node, "services", "status", p]

/-- Making the mapping leaves alone whatever does not lie above it. -/
theorem lookup_withStatuses {q : Path} (outside : ¬ (statuses node).startsWith q = true) :
    (withStatuses node v).lookup q = v.lookup q :=
  (lookup_withMapping (Path.allKeys_ofKeys ["cluster", "nodes", node, "services", "status"])
      outside).trans
    (lookup_withMapping (Path.allKeys_ofKeys ["cluster", "nodes", node, "services"])
      (mt Path.startsWith_key outside))

/-- A key of an old document that the new one does not have, that of the record apart. -/
def isOld (doc : Entries Value) (k : String) : Bool :=
  k ≠ "monitor" ∧ !Entries.contains doc k

theorem replaced_dropOldKeys (doc : Entries Value) {ks : List String}
    (there : v.lookup (Layout.serviceStatus node p) = some c) (nodup : ks.Nodup)
    (has : ∀ k ∈ ks, (Entries.get? m k).isSome) :
    Takes (Replaced v (Layout.serviceStatus node p) m) (dropOldKeys node p doc ks)
      (Replaced v (Layout.serviceStatus node p) (m.eraseAll (ks.filter (isOld doc)))) := by
  induction ks generalizing m with
  | nil => exact takes_pure _ fun _ h => h
  | cons k ks ih =>
    obtain ⟨fresh, nodup⟩ := List.nodup_cons.1 nodup
    unfold dropOldKeys
    dsimp only
    split
    · next old =>
      rw [List.filter_cons_of_pos (by simpa [isOld] using old)]
      refine takes_bind (replaced_unsetKey there (has k List.mem_cons_self)) fun _ =>
        ih nodup fun l hl => ?_
      -- a key that is dropped does not come again
      rw [Entries.get?_erase, if_neg (ne_of_mem_of_not_mem hl fresh)]
      exact has l (List.mem_cons_of_mem _ hl)
    · next kept =>
      rw [List.filter_cons_of_neg (by simpa [isOld] using kept)]
      exact ih nodup fun l hl => has l (List.mem_cons_of_mem _ hl)

/-- Where no key is old, nothing is dropped. -/
theorem dropOldKeys_none {ks : List String} (none_old : ∀ k ∈ ks, isOld doc k = false) :
    dropOldKeys node p doc ks = pure () := by
  induction ks with
  | nil => rfl
  | cons k ks ih =>
    have kept := none_old k List.mem_cons_self
    unfold dropOldKeys
    dsimp only
    rw [if_neg (by simpa [isOld] using kept)]
    exact ih fun l hl => none_old l (List.mem_cons_of_mem _ hl)

/-- **What dropping and merging come to**: the new document, with the record of the old
one. -/
theorem insertAll_eraseAll (sorted : Entries.Sorted m) (sorted' : Entries.Sorted doc) :
    (m.eraseAll ((Entries.keys m).filter (isOld doc))).insertAll (Entries.erase doc "monitor")
      = doc.change "monitor" (Entries.get? m "monitor") := by
  refine ((sorted.eraseAll _).insertAll _).ext (sorted'.change _ _) fun key => ?_
  rw [Entries.get?_insertAll (sorted'.erase _), Entries.get?_eraseAll, Entries.get?_erase,
    Entries.get?_change]
  by_cases record : key = "monitor"
  · subst record
    rw [if_pos rfl, if_pos rfl, Option.none_or, if_neg (by simp [isOld])]
  · rw [if_neg record, if_neg record]
    cases new : Entries.get? doc key with
    | some x => rfl
    | none =>
      rw [Option.none_or, ite_eq_left_iff]
      intro kept
      by_contra old
      have there := Entries.isSome_get?_iff.1 (Option.ne_none_iff_isSome.1 old)
      exact kept (List.mem_filter.2 ⟨there, by simp [isOld, record, Entries.contains, new]⟩)

/-- Making sure of a document where there is none, or a mapping, leaves a mapping with the
record that was there. Any other document is stored in its place as if nothing had been made. -/
theorem document_of_ensureInstance (sorted : s.data.Sorted)
    (mapping : ∀ x, s.data.lookup (Layout.serviceStatus node p) = some x → ∃ m, x = .map m)
    (run : ensureInstance node p s = .ok () t) :
    ∃ m, t.data.lookup (Layout.serviceStatus node p) = some (.map m) ∧ Entries.Sorted m
      ∧ Entries.get? m "monitor" = s.data.lookup (Layout.serviceMonitor node p)
      ∧ ∀ y, (withStatuses node s.data).store (Layout.serviceStatus node p) y
        = .ok (t.data.plug (Layout.serviceStatus node p) y) := by
  rw [ensureInstance_eq] at run
  obtain ⟨_, u, made, rest⟩ := bind_eq_ok run
  obtain ⟨fs, t', document, ended⟩ := bind_eq_ok rest
  cases ended
  have tree := data_makeStatuses made
  have stored (y : Value) := store_of_make document y
  rw [tree] at stored
  have same : u.data.lookup (Layout.serviceStatus node p)
      = s.data.lookup (Layout.serviceStatus node p) := by
    rw [tree]
    exact lookup_withStatuses (Path.not_startsWith_of_length_lt (Nat.le_of_ble_eq_true rfl))
  rcases setIfAbsent_split document with ⟨rfl, x, there⟩ | ⟨absent, change⟩
  · obtain ⟨m, rfl⟩ := mapping x (same ▸ there)
    have before : s.data.lookup (Layout.serviceStatus node p) = some (.map m) := same ▸ there
    exact ⟨m, there, Sorted.entries (sorted.lookup before), (lookup_record before).symm, stored⟩
  · refine ⟨[], lookup_enact?_self change, .nil, ?_, stored⟩
    rw [Layout.serviceMonitor, Path.key, Path.child, lookup_append, ← same, absent]
    rfl

/-- **A status document that is taken in** is stored with the record that was there, in the
tree in which the mapping of the documents was made if it was missing. -/
theorem store_of_replaceStatus (sorted : s.data.Sorted) (sorted' : Entries.Sorted doc)
    (mapping : ∀ x, s.data.lookup (Layout.serviceStatus node p) = some x → ∃ m, x = .map m)
    (run : replaceStatus node p doc s = .ok () t) :
    (withStatuses node s.data).store (Layout.serviceStatus node p)
      (.map (doc.change "monitor" (s.data.lookup (Layout.serviceMonitor node p))))
        = .ok t.data := by
  obtain ⟨_, u, ensured, rest⟩ := bind_eq_ok run
  obtain ⟨m, there, entries, record, stored⟩ := document_of_ensureInstance sorted mapping ensured
  have whole : Replaced u.data (Layout.serviceStatus node p) m u := by
    have recorded := recorded_ensureInstance node p s
    rw [after_of_ok ensured] at recorded
    exact (plug_lookup (recorded.changes sorted).1 there).symm
  have has : ∀ k ∈ Entries.keys m, (Entries.get? m k).isSome := fun k => Entries.isSome_get?_iff.2
  obtain ⟨_, t', replaced, left⟩ := takes_bind
    (replaced_dropOldKeys doc there (nodup_keys entries) has) (fun _ =>
      takes_bind (replaced_merge there _ (Entries.erase doc "monitor")) fun _ =>
        takes_pure () fun _ h => h) u whole
  change (dropOldKeys node p doc (keysAt u (Layout.serviceStatus node p)) >>= _) u = _ at rest
  rw [keysAt_of_lookup there] at rest
  cases rest.symm.trans replaced
  rw [insertAll_eraseAll entries sorted', record] at left
  rw [stored, left]

/-- A status document that is taken in again changes nothing. -/
theorem replaceStatus_same {x : Option Value} (sorted : s.data.Sorted)
    (sorted' : Entries.Sorted doc) (numbers : ∀ e ∈ doc, e.2.NoNaN)
    (there : s.data.lookup (Layout.serviceStatus node p) = some (.map (doc.change "monitor" x))) :
    replaceStatus node p doc s = .ok () s := by
  have none_old : ∀ k ∈ Entries.keys (doc.change "monitor" x), isOld doc k = false := by
    intro k hk
    have found := Entries.isSome_get?_iff.2 hk
    rw [Entries.get?_change] at found
    by_cases record : k = "monitor"
    · simp [isOld, record]
    · rw [if_neg record] at found
      simp [isOld, Entries.contains, found]
  obtain ⟨fs, merged⟩ := merge_same (Entries.erase doc "monitor") sorted there
    (fun e he => by
      obtain ⟨mem, ne⟩ := List.mem_filter.1 he
      rw [Entries.get?_change, if_neg (of_decide_eq_true ne)]
      exact sorted'.get?_of_mem mem)
    (fun e he => numbers e (Entries.mem_of_mem_erase he))
  refine (bind_ok (ensureInstance_there there)).trans ?_
  change (dropOldKeys node p doc (keysAt s (Layout.serviceStatus node p)) >>= _) s = _
  rw [keysAt_of_lookup there, dropOldKeys_none none_old]
  exact bind_ok merged

end HaCluster.Node.Blob
