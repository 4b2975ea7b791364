import HaCluster.Proofs.Daemon.Peers
import HaCluster.Proofs.Node.Document
import HaCluster.Proofs.Replication.Restart

/-!
# Posting a status document

A status document that is posted replaces the one that was there, all but the record of
the service (`Posted`): the old record stays as it was, whatever the document holds in its
place. Nothing else of the tree is changed, unless the mapping of the documents is made on
the way. The peers get to know of it, and to post the document once more changes nothing
and tells them nothing.

The differences that are queued leave out the sign of a zero, so what the peers make of
them is the new head up to that.
-/

namespace HaCluster.Daemon

open Value Replication Node.Blob

variable {d d' : Daemon} {p : String} {doc : Entries Value}

/-- What has become of a daemon that took in a status document. -/
structure Posted (p : String) (doc : Entries Value) (d d' : Daemon) : Prop where
  /-- The document is the one that was posted, with the record that was there, or none. -/
  document : d'.store.data.lookup (Layout.serviceStatus d.nodeName p)
    = some (.map (doc.change "monitor" (d.store.data.lookup (Layout.serviceMonitor d.nodeName p))))
  /-- It was stored in the tree as it was, but for the mapping of the documents, which was
  made if it was missing. -/
  tree : (withStatuses d.nodeName d.store.data).store (Layout.serviceStatus d.nodeName p)
    (.map (doc.change "monitor" (d.store.data.lookup (Layout.serviceMonitor d.nodeName p))))
      = .ok d'.store.data
  /-- What lies neither above nor below the document was left alone. -/
  aside : ∀ q, (Layout.serviceStatus d.nodeName p).Apart q →
    d'.store.data.lookup q = d.store.data.lookup q
  /-- So was everything that is not in the tree or the queue. -/
  rest : d' = { d with store := ⟨d'.store.data, d.store.journal, d'.store.queue⟩ }
  /-- What was queued, replayed on the old head, gives the new one. -/
  queued : ∃ fs old new v, d'.store.queue = d.store.queue ++ fs
    ∧ d.store.journalHead = some old ∧ d'.store.journalHead = some new
    ∧ old.replay fs = .ok v ∧ v.plain = new.plain
    ∧ (d.store.data.NoNaN → (v == new) = true)
  /-- To post the document again changes nothing. -/
  again : postStatus p (.map doc) d' = .ok () d'

/-- A node that has a blob has a head that it tells its peers. -/
theorem exists_journalHead {s : Store} {node : String} (journal : s.journal = some (journalOf node))
    (blob : Mutation.HasMap (Layout.node node) s) : ∃ head, s.journalHead = some head := by
  obtain ⟨m, there⟩ := blob
  rw [Journal.journalHead_eq_image journal]
  exact ⟨_, congrArg (Option.map _) there⟩

/-- A document that can be taken in lies in a blob. -/
theorem hasMap_of_replaceStatus {s t : Store} {node : String}
    (run : replaceStatus node p doc s = .ok () t) : Mutation.HasMap (Layout.node node) s := by
  obtain ⟨_, _, ensured, -⟩ := bind_eq_ok run
  obtain ⟨_, _, services, -⟩ := bind_eq_ok ensured
  exact Mutation.hasMap_of_setIfAbsent services

theorem hasMap_of_document {s : Store} {node : String} {x : Value}
    (document : s.data.lookup (Layout.serviceStatus node p) = some x) :
    Mutation.HasMap (Layout.node node) s := by
  obtain ⟨_, statuses⟩ := exists_map_of_lookup_key document
  obtain ⟨_, services⟩ := exists_map_of_lookup_key statuses
  exact exists_map_of_lookup_key services

/-- What a daemon with a blob queues, replayed on its old head, gives the new one. -/
theorem replay_of_recorded (journal : d.store.journal = some (journalOf d.nodeName))
    (sorted : d.store.data.Sorted) (recorded : Store.Recorded d.store d'.store)
    (blob : Mutation.HasMap (Layout.node d.nodeName) d.store)
    (blob' : Mutation.HasMap (Layout.node d.nodeName) d'.store) :
    ∃ fs old new v, d'.store.queue = d.store.queue ++ fs
      ∧ d.store.journalHead = some old ∧ d'.store.journalHead = some new
      ∧ old.replay fs = .ok v ∧ v.plain = new.plain
      ∧ (d'.store.data.NoNaN → (v == new) = true) := by
  have journal' := recorded.journal.trans journal
  obtain ⟨old, head⟩ := exists_journalHead journal blob
  obtain ⟨new, head'⟩ := exists_journalHead journal' blob'
  obtain ⟨fs, queue, leads⟩ := leads_of_recorded (byKeys_journalOf d.nodeName)
    (List.cons_ne_nil _ _) (by simp [journalOf, Path.ofKeys]) journal sorted recorded
  rw [head, head'] at leads
  obtain ⟨v, replayed, plain⟩ := leads.replay
  refine ⟨fs, old, new, v, queue, head, head', replayed, plain, fun numbers => ?_⟩
  rw [Journal.journalHead_eq_image journal'] at head'
  refine (beq_iff_plain_eq ?_).2 plain
  rw [← noNaN_plain, plain, noNaN_plain]
  exact Journal.image_everywhere closed_isNumber numbers head'

/-- **Posting a status document replaces everything but the record of the service.** -/
theorem posted_of_postStatus (journal : d.store.journal = some (journalOf d.nodeName))
    (sorted : d.store.data.Sorted)
    (mapping : ∀ x, d.store.data.lookup (Layout.serviceStatus d.nodeName p) = some x →
      ∃ m, x = .map m)
    (sorted' : (Value.map doc).Sorted) (number : (Value.map doc).NoNaN)
    (run : postStatus p (.map doc) d = .ok () d') : Posted p doc d d' := by
  obtain ⟨replaced, only⟩ := mutate_eq_ok_iff.1
    (show mutate (replaceStatus d.nodeName p doc) d = .ok () d' from run)
  have recorded : Store.Recorded d.store d'.store := by
    have recorded := recorded_replaceStatus d.nodeName p (everywhere_map.1 sorted').2 d.store
    rwa [Mutation.after_of_ok replaced] at recorded
  have tree := store_of_replaceStatus sorted sorted'.entries mapping replaced
  have change := store_eq_ok_iff.1 tree
  have document := lookup_enact?_self change
  refine ⟨document, tree, fun q aside => ?_, ?_, ?_, ?_⟩
  · rw [lookup_enact?_apart (.inr (allKeys_serviceStatus d.nodeName p)) aside.2 aside.1 change]
    exact lookup_withStatuses (mt Path.startsWith_key aside.1)
  · rw [← recorded.journal]
    exact only
  · obtain ⟨fs, old, new, v, queue, head, head', replayed, plain, same⟩ :=
      replay_of_recorded journal sorted recorded (hasMap_of_replaceStatus replaced)
        (hasMap_of_document document)
    refine ⟨fs, old, new, v, queue, head, head', replayed, plain, fun numbers => same ?_⟩
    refine Everywhere.enact? closed_isNumber ((numbers.withMapping closed_isNumber trivial
      _).withMapping closed_isNumber trivial _) ?_ change
    rintro y ⟨⟩
    exact number.change closed_isNumber "monitor" fun y hy => numbers.lookup hy
  · have name : d'.nodeName = d.nodeName := by rw [only]
    have again := replaceStatus_same (recorded.changes sorted).1 sorted'.entries
      (everywhere_map.1 number).2 document
    rw [← name] at again
    exact mutate_eq_ok_iff.2 ⟨again, rfl⟩

/-- A node with a service that reports some keys, and has a record. -/
def reporting : Daemon :=
  let service : Value := .map [("avail", .str "up"), ("monitor", .map [("status", .str "idle")]),
    ("old", .null)]
  let blob : Value := .map [("services", .map [("status", .map [("svc", service)])])]
  let tree : Value := .map [("cluster", .map [("nodes", .map [("n1", blob)])])]
  { alone with store := .new tree (some (journalOf "n1")) }

/-- A document with a record of its own comes in. -/
theorem posted_reporting :
    let doc : Entries Value := [("avail", .str "down"), ("monitor", .null), ("new", .list [.int 1])]
    ∃ d', postStatus "svc" (.map doc) reporting = .ok () d' ∧ Posted "svc" doc reporting d'
      ∧ d'.store.data.lookup (Layout.serviceStatus "n1" "svc") = some (.map
        [("avail", .str "down"), ("monitor", .map [("status", .str "idle")]),
          ("new", .list [.int 1])]) := by
  intro doc
  obtain ⟨d', run⟩ : ∃ d', postStatus "svc" (.map doc) reporting = .ok () d' := ⟨_, rfl⟩
  have posted : Posted "svc" doc reporting d' := by
    refine posted_of_postStatus rfl ?_ ?_ ?_ ?_ run
    · simp only [reporting, Store.new, Everywhere, EverywhereEntries, isSorted, Entries.Sorted]
      decide
    · intro x there
      obtain ⟨m, mapping⟩ : ∃ m, reporting.store.data.lookup (Layout.serviceStatus "n1" "svc")
          = some (.map m) := ⟨_, rfl⟩
      exact ⟨m, Option.some.inj (there.symm.trans mapping)⟩
    · simp only [doc, Everywhere, EverywhereEntries, EverywhereItems, isSorted, Entries.Sorted]
      decide
    · simp [doc, Everywhere, EverywhereEntries, EverywhereItems, isNumber]
  exact ⟨d', run, posted, posted.document.trans rfl⟩

end HaCluster.Daemon
