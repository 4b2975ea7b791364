import HaCluster.Proofs.Daemon.Refusals

/-!
# Records of different services

The status documents of a node lie in one mapping, and the record of a service lies in
its document. Updating the record makes the mapping if it is missing, looks at the one
document, and changes at most that (`touches_update`). So updates for two services do not
get in each other's way: each answers as if the other had not been made, and in either
order they leave the same tree (`Touches.comm`).

Nothing is assumed of the tree. Where the mapping cannot be made, every update fails and
changes nothing.
-/

namespace HaCluster

open Value

/-! ## What a mutation comes to -/

namespace Mutation

variable {α β : Type} {p : Path} {x : Value}

/-- What a mutation answers, and the tree that it leaves. -/
def effect (m : Mutation α) (s : Store) : Except DataError α × Value :=
  match m s with
  | .ok a t => (.ok a, t.data)
  | .error e t => (.error e, t.data)

theorem effect_of_ok {m : Mutation α} {s t : Store} {a : α} (run : m s = .ok a t) :
    m.effect s = (.ok a, t.data) := by
  unfold effect
  rw [run]

theorem effect_of_error {m : Mutation α} {s t : Store} {e : DataError}
    (run : m s = .error e t) : m.effect s = (.error e, t.data) := by
  unfold effect
  rw [run]

/-- What a mutation comes to does not depend on what is queued. -/
def Blind (m : Mutation α) : Prop :=
  ∀ s t : Store, s.data = t.data → m.effect s = m.effect t

theorem blind_pure (a : α) : Blind (pure a) :=
  fun _ _ same => congrArg (Prod.mk _) same

theorem blind_bind {m : Mutation α} {f : α → Mutation β} (hm : Blind m)
    (hf : ∀ a, Blind (f a)) : Blind (m >>= f) := by
  intro s t same
  have run (s : Store) : (m >>= f).effect s = match m s with
      | .ok a u => (f a).effect u
      | .error e u => (.error e, u.data) := by
    show effect (EStateM.bind m f) s = _
    unfold effect EStateM.bind
    cases m s <;> rfl
  have first := hm s t same
  unfold effect at first
  rw [run, run]
  cases hs : m s <;> cases ht : m t <;> rw [hs, ht] at first <;>
    obtain ⟨answer, left⟩ := Prod.mk.inj first <;> cases answer
  case ok.ok.refl => exact hf _ _ _ left
  case error.error.refl => exact congrArg _ left

theorem blind_set : Blind (Store.set p x) := by
  intro s t same
  unfold effect Store.set
  rw [same]
  cases t.data.store p x with
  | error e => exact congrArg _ same
  | ok data =>
    dsimp only
    rw [Store.record_data, Store.record_data]

theorem blind_setIfAbsent : Blind (Store.setIfAbsent p x) := by
  intro s t same
  have there : s.has p = t.has p := by
    unfold Store.has
    rw [same]
  have set := blind_set (p := p) (x := x) s t same
  unfold effect at set ⊢
  unfold Store.setIfAbsent
  rw [there]
  by_cases has : t.has p = true
  · rw [if_pos has, if_pos has]
    exact congrArg _ same
  · rw [if_neg has, if_neg has]
    exact set

theorem blind_unset : Blind (Store.unset p) := by
  intro s t same
  unfold effect Store.unset
  rw [same]
  cases t.data.remove p with
  | error e => exact congrArg _ same
  | ok r =>
    dsimp only
    rw [Store.record_data, Store.record_data]

theorem blind_unsetIfPresent : Blind (Store.unsetIfPresent p) := by
  intro s t same
  have unset := blind_unset (p := p) s t same
  unfold effect at unset ⊢
  unfold Store.unsetIfPresent
  cases hs : Store.unset p s <;> cases ht : Store.unset p t <;> rw [hs, ht] at unset <;>
    obtain ⟨answer, left⟩ := Prod.mk.inj unset <;> cases answer
  case ok.ok.refl => exact congrArg _ left
  case error.error.refl e _ _ => cases e <;> exact congrArg _ left

end Mutation

/-- In a value that is no mapping no key can be set. -/
theorem Store.set_key_error {s : Store} {p : Path} {k : String} {v x : Value}
    (found : s.data.lookup p = some v) (plain : ∀ m, v ≠ .map m) :
    Store.set (p.key k) x s = .error (.wrongKind p "map" v.kind) s := by
  have place : place (p.key k) v (.key k) x = .error (.wrongKind p "map" v.kind) := by
    cases v <;> first | exact absurd rfl (plain _) | simp [Value.place, Path.key, Path.child, Segment.container]
  have stored : s.data.store (p.key k) x = .error (.wrongKind p "map" v.kind) := by
    have failed : editAt (fun c => (Value.place (p.key k) c (.key k) x).map ((), ·)) [] p s.data
        = .error (.wrongKind p "map" v.kind) := by
      refine editAt_of_error found ?_
      show (Value.place _ v _ x).map _ = _
      rw [place]
      rfl
    unfold Value.store
    simp only [Path.key, Path.child, List.getLast?_concat, List.dropLast_concat]
    simp only [Path.key, Path.child] at failed
    rw [failed]
  unfold Store.set
  rw [stored]

/-- Only in a mapping there can be a value under a key. -/
theorem Mutation.hasMap_of_setIfAbsent {s t : Store} {p : Path} {k : String} {x : Value}
    {fs : List Fragment} (run : Store.setIfAbsent (p.key k) x s = .ok fs t) : HasMap p s := by
  rcases Store.setIfAbsent_split run with ⟨-, c, there⟩ | ⟨-, change⟩
  · exact exists_map_of_lookup_key there
  · rw [Path.key, Path.child, enact?_append (List.cons_ne_nil _ _)] at change
    obtain ⟨d, found, change⟩ := Option.bind_eq_some_iff.1 change
    obtain ⟨d', edited, -⟩ := Option.map_eq_some_iff.1 change
    obtain ⟨m, rfl⟩ := exists_map_of_enact?_key edited
    exact ⟨m, found⟩

/-! ## The mapping of the documents -/

namespace Node.Blob

open Mutation

variable {α β : Type} {node p q : String} {s : Store} {v w : Value} {m : Entries Value}
  {at_ : Float} {edit : Service.Monitor → Service.Monitor}

/-- Makes sure that the status documents have a mapping. -/
def makeStatuses (node : String) : Mutation Unit := do
  let _ ← Store.setIfAbsent (Layout.services node) Value.empty
  let _ ← Store.setIfAbsent (statuses node) Value.empty
  pure ()

theorem blind_makeStatuses : Blind (makeStatuses node) :=
  blind_bind blind_setIfAbsent fun _ => blind_bind blind_setIfAbsent fun _ => blind_pure ()

/-- The mapping comes first, then the document. -/
theorem ensureInstance_eq : ensureInstance node p = (do
    makeStatuses node
    let _ ← Store.setIfAbsent (Layout.serviceStatus node p) Value.empty
    pure ()) := by
  unfold makeStatuses
  simp only [bind_assoc, pure_bind]
  rfl

/-- The tree in which the status documents have a mapping, and this mapping; nothing if
they can have none. -/
def ground (node : String) (v : Value) : Option (Value × Entries Value) :=
  match (makeStatuses node).effect (Store.new v none) with
  | (.ok _, w) => ((w.lookup (statuses node)).bind asMap?).map (w, ·)
  | (.error _, _) => none

/-- A mapping that is there is not made. -/
theorem makeStatuses_there (there : s.data.lookup (statuses node) = some (.map m)) :
    makeStatuses node s = .ok () s := by
  obtain ⟨d, found⟩ := exists_map_of_lookup_key there
  exact (bind_ok (Store.setIfAbsent_there found)).trans (bind_ok (Store.setIfAbsent_there there))

/-- A tree that has the mapping needs no other. -/
theorem ground_of_lookup (there : w.lookup (statuses node) = some (.map m)) :
    ground node w = some (w, m) := by
  unfold ground
  rw [effect_of_ok (makeStatuses_there (s := Store.new w none) there)]
  show ((w.lookup (statuses node)).bind asMap?).map (w, ·) = _
  rw [there]
  rfl

/-- What `ground` finds is what is left when the mapping has been made. -/
theorem ground_eq_some (h : ground node s.data = some (w, m)) :
    ∃ t, makeStatuses node s = .ok () t ∧ t.data = w
      ∧ w.lookup (statuses node) = some (.map m) := by
  unfold ground at h
  rw [blind_makeStatuses (Store.new s.data none) s rfl] at h
  unfold effect at h
  cases made : makeStatuses node s with
  | error e t =>
    rw [made] at h
    cases h
  | ok a t =>
    rw [made] at h
    obtain ⟨m', found, same⟩ := Option.map_eq_some_iff.1 h
    obtain ⟨d, there, is_map⟩ := Option.bind_eq_some_iff.1 found
    cases same
    refine ⟨t, rfl, rfl, ?_⟩
    cases d with
    | map m' =>
      cases is_map
      exact there
    | _ => cases is_map

/-- The tree with a document put into the mapping, or left alone. -/
def put (node : String) (w : Value) (m : Entries Value) (p : String) : Option Value → Value
  | none => w
  | some x => w.plug (statuses node) (.map (Entries.insert m p x))

/-- The mapping after a document was put into it, or left alone. -/
def kept (m : Entries Value) (p : String) : Option Value → Entries Value
  | none => m
  | some x => Entries.insert m p x

theorem lookup_put (there : w.lookup (statuses node) = some (.map m)) (x : Option Value) :
    (put node w m p x).lookup (statuses node) = some (.map (kept m p x)) := by
  cases x with
  | none => exact there
  | some x => exact lookup_plug there

/-- The document that was put is found. -/
theorem get?_kept_self (m : Entries Value) (p : String) (x : Option Value) :
    Entries.get? (kept m p x) p = x.or (Entries.get? m p) := by
  cases x with
  | none => rfl
  | some x => exact Entries.get?_insert_self m p x

/-- The documents of other services stay. -/
theorem get?_kept_of_ne (ne : p ≠ q) (m : Entries Value) (x : Option Value) :
    Entries.get? (kept m p x) q = Entries.get? m q := by
  cases x with
  | none => rfl
  | some x => exact Entries.get?_insert_of_ne m x ne.symm

/-- Documents of two services may be put in either order. -/
theorem put_comm (there : w.lookup (statuses node) = some (.map m)) (ne : p ≠ q)
    (x y : Option Value) :
    put node (put node w m p x) (kept m p x) q y = put node (put node w m q y) (kept m q y) p x := by
  cases x <;> cases y <;> try rfl
  case some.some x y =>
    show (w.plug _ _).plug _ _ = (w.plug _ _).plug _ _
    rw [plug_plug there, plug_plug there]
    exact congrArg (fun m => w.plug _ (.map m)) (Entries.insert_comm m ne x y)

/-- Of two documents of one service the later one counts. -/
theorem put_put (there : w.lookup (statuses node) = some (.map m)) (x y : Option Value) :
    put node (put node w m p x) (kept m p x) p y = put node w m p (y.or x) := by
  cases x <;> cases y <;> try rfl
  case some.some x y =>
    show (w.plug _ _).plug _ _ = w.plug _ _
    rw [plug_plug there]
    exact congrArg (fun m => w.plug _ (.map m)) (Entries.insert_insert m p x y)

/-! ## One document -/

/-- What updating the record in a document comes to: the answer, and the document if it is
changed. A document that is missing counts as empty. -/
def amend (node p : String) (at_ : Float) (edit : Service.Monitor → Service.Monitor)
    (document : Option Value) : Except DataError Bool × Option Value :=
  let doc := document.getD Value.empty
  let current := ((doc.get? "monitor").bind
    fun v => (Decode.ofValue Service.Monitor.decode v).toOption).getD Service.Monitor.blank
  let next := (edit current).dated current at_
  if next == current && (doc.get? "monitor").isSome then (.ok false, none)
  else match doc with
    | .map d => (.ok true, some (.map (Entries.insert d "monitor" next.toValue)))
    | other => (.error (.wrongKind (Layout.serviceStatus node p) "map" other.kind), none)

/-- The record is looked for in the document. -/
theorem lookup_record {doc : Value} (found : s.data.lookup (Layout.serviceStatus node p) = some doc) :
    s.data.lookup (Layout.serviceMonitor node p) = doc.get? "monitor" := by
  rw [Layout.serviceMonitor, Path.key, Path.child, lookup_append, found, get?_eq_lookup]
  rfl

/-- A document is edited by putting another one in its place. -/
theorem enact?_in_document {r : Path} {x : Option Value} (hr : r ≠ [])
    (there : v.lookup (statuses node) = some (.map m)) :
    v.enact? ⟨statuses node ++ .key p :: r, x⟩
      = ((Entries.get? m p).bind fun doc => doc.enact? ⟨r, x⟩).map
        fun doc => put node v m p (some doc) := by
  rw [enact?_append (List.cons_ne_nil _ _), there, Option.bind_some, enact?_cons hr, step?_map,
    Option.map_bind, Option.map_bind]
  refine Option.bind_congr fun doc _ => ?_
  rw [Function.comp_apply, Function.comp_apply, Option.map_map]
  rfl

/-- **The record is written** into a document that is there. -/
theorem effect_writeInstanceMonitor {doc : Value}
    (there : s.data.lookup (statuses node) = some (.map m)) (found : Entries.get? m p = some doc) :
    (writeInstanceMonitor node p at_ edit).effect s
      = ((amend node p at_ edit (some doc)).1,
        put node s.data m p (amend node p at_ edit (some doc)).2) := by
  have at_doc : s.data.lookup (Layout.serviceStatus node p) = some doc := by
    rw [show Layout.serviceStatus node p = statuses node ++ [.key p] from rfl, lookup_append, there]
    show (Entries.get? m p).bind some = _
    rw [found]
    rfl
  have record := lookup_record at_doc
  have current : instanceMonitor s node p = ((doc.get? "monitor").bind
      fun v => (Decode.ofValue Service.Monitor.decode v).toOption).getD Service.Monitor.blank := by
    unfold instanceMonitor instanceMonitor? Store.get
    rw [record]
    cases doc.get? "monitor" <;> rfl
  have has : s.has (Layout.serviceMonitor node p) = (doc.get? "monitor").isSome := by
    unfold Store.has
    rw [record]
  unfold effect writeInstanceMonitor amend
  rw [current, has]
  dsimp only [Option.getD_some]
  generalize Service.Monitor.dated (edit _) _ at_ = next
  by_cases same : (next == ((doc.get? "monitor").bind fun v =>
      (Decode.ofValue Service.Monitor.decode v).toOption).getD Service.Monitor.blank
      && (doc.get? "monitor").isSome) = true
  · rw [if_pos same, if_pos same]
    rfl
  · rw [if_neg same, if_neg same]
    cases doc with
    | map d =>
      obtain ⟨fs, t, set, change⟩ := Store.set_key_ok (k := "monitor") (x := next.toValue) at_doc
      rw [show (do let _ ← Store.set (Layout.serviceMonitor node p) next.toValue; pure true :
        Mutation Bool) s = .ok true t from bind_ok set]
      have path : (Layout.serviceStatus node p).key "monitor"
          = statuses node ++ .key p :: [.key "monitor"] := by
        simp [Layout.serviceStatus, statuses, Path.key, Path.child]
      rw [path, enact?_in_document (List.cons_ne_nil _ _) there, found] at change
      exact congrArg (Prod.mk _) (Option.some.inj change).symm
    | _ =>
      rw [show (do let _ ← Store.set (Layout.serviceMonitor node p) next.toValue; pure true :
        Mutation Bool) s = .error _ s from
          bind_error (Store.set_key_error at_doc fun m same => by cases same)]
      rfl

theorem blind_writeInstanceMonitor : Blind (writeInstanceMonitor node p at_ edit) := by
  intro s t same
  have current : instanceMonitor s node p = instanceMonitor t node p := by
    unfold instanceMonitor instanceMonitor? Store.get
    rw [same]
  have has : s.has (Layout.serviceMonitor node p) = t.has (Layout.serviceMonitor node p) := by
    unfold Store.has
    rw [same]
  have set (x : Value) := blind_bind (blind_set (p := Layout.serviceMonitor node p) (x := x))
    (fun _ => blind_pure true) s t same
  unfold effect at set ⊢
  unfold writeInstanceMonitor
  rw [current, has]
  dsimp only
  generalize Service.Monitor.dated (edit _) _ at_ = next
  by_cases noop : (next == instanceMonitor t node p
      && t.has (Layout.serviceMonitor node p)) = true
  · rw [if_pos noop, if_pos noop]
    exact congrArg _ same
  · rw [if_neg noop, if_neg noop]
    exact set _

theorem blind_updateInstanceMonitor : Blind (updateInstanceMonitor node p at_ edit) := by
  unfold updateInstanceMonitor
  rw [ensureInstance_eq]
  exact blind_bind (blind_bind blind_makeStatuses fun _ =>
    blind_bind blind_setIfAbsent fun _ => blind_pure ()) fun _ => blind_writeInstanceMonitor

/-- **The record of a service is updated** in its document alone, where the documents have
their mapping. -/
theorem effect_updateInstanceMonitor (there : s.data.lookup (statuses node) = some (.map m)) :
    (updateInstanceMonitor node p at_ edit).effect s
      = ((amend node p at_ edit (Entries.get? m p)).1,
        put node s.data m p (amend node p at_ edit (Entries.get? m p)).2) := by
  obtain ⟨t, made, same, -⟩ := ground_eq_some (s := s) (ground_of_lookup there)
  have ensured {fs : List Fragment} {u : Store}
      (document : Store.setIfAbsent (Layout.serviceStatus node p) Value.empty t = .ok fs u) :
      (updateInstanceMonitor node p at_ edit).effect s
        = (writeInstanceMonitor node p at_ edit).effect u := by
    unfold effect updateInstanceMonitor
    rw [ensureInstance_eq, bind_ok ((bind_ok made).trans (bind_ok document))]
  have at_doc : t.data.lookup (Layout.serviceStatus node p) = Entries.get? m p := by
    rw [same]
    exact lookup_key there p
  rw [← same] at there ⊢
  cases found : Entries.get? m p with
  | some doc =>
    rw [found] at at_doc
    rw [ensured (Store.setIfAbsent_there at_doc)]
    exact effect_writeInstanceMonitor there found
  | none =>
    rw [found] at at_doc
    obtain ⟨fs, u, set, change⟩ := Store.set_key_ok (k := p) (x := Value.empty) there
    have absent : Store.setIfAbsent (Layout.serviceStatus node p) Value.empty t = .ok fs u := by
      unfold Store.setIfAbsent Store.has
      rw [at_doc]
      exact set
    have new : u.data = put node t.data m p (some Value.empty) := by
      rw [show (statuses node).key p = statuses node ++ [.key p] from rfl,
        enact?_append (List.cons_ne_nil _ _), there] at change
      exact (Option.some.inj change).symm
    have there' := lookup_put there (p := p) (some Value.empty)
    rw [← new] at there'
    rw [ensured absent, effect_writeInstanceMonitor there' (Entries.get?_insert_self m p _), new,
      put_put there]
    refine congrArg (fun y => ((amend node p at_ edit none).1, put node t.data m p y)) ?_
    show (amend node p at_ edit none).2.or (some Value.empty) = (amend node p at_ edit none).2
    -- an empty document has no record, so one is written
    simp [amend, Value.get?, Value.empty, asMap?]

/-- Where there can be no documents, no record is updated. -/
theorem updateInstanceMonitor_fails (none_ : ground node s.data = none) :
    ∃ e, updateInstanceMonitor node p at_ edit s = .error e s := by
  cases run : updateInstanceMonitor node p at_ edit s with
  | error e t => exact ⟨e, congrArg _ (atomic_updateInstanceMonitor e t run)⟩
  | ok changed t =>
    exfalso
    unfold updateInstanceMonitor at run
    rw [ensureInstance_eq] at run
    obtain ⟨_, u, ensured, -⟩ := bind_eq_ok run
    obtain ⟨_, w, made, rest⟩ := bind_eq_ok ensured
    obtain ⟨fs, x, document, -⟩ := bind_eq_ok rest
    have nothing (m : Entries Value) : w.data.lookup (statuses node) ≠ some (.map m) := by
      intro there
      unfold ground at none_
      rw [blind_makeStatuses (Store.new s.data none) s rfl, effect_of_ok made] at none_
      simp [there, asMap?] at none_
    obtain ⟨m, there⟩ := hasMap_of_setIfAbsent (p := statuses node) (k := p) document
    exact nothing m there

/-! ## Steps on one document -/

/-- A step on trees that have the mapping. It looks at the document of one service, and
changes at most that. -/
def Inside (node p : String) (f : Value → Except DataError α × Value) : Prop :=
  ∃ g : Option Value → Except DataError α × Option Value, ∀ w m,
    w.lookup (statuses node) = some (.map m) →
      f w = ((g (Entries.get? m p)).1, put node w m p (g (Entries.get? m p)).2)

/-- A step that makes the mapping first, and fails where it cannot. -/
structure Touches (node p : String) (f : Value → Except DataError α × Value) : Prop where
  fails (v : Value) : ground node v = none → ∃ e, f v = (.error e, v)
  grounds (v w : Value) (m : Entries Value) : ground node v = some (w, m) → f v = f w
  inside : Inside node p f

/-- Two steps, of which the second one is made if the first one succeeds. -/
def andThen (f : Value → Except DataError α × Value) (g : α → Value → Except DataError β × Value) :
    Value → Except DataError β × Value := fun v =>
  match f v with
  | (.ok a, w) => g a w
  | (.error e, w) => (.error e, w)

theorem inside_pure (r : Except DataError α) : Inside node p (fun w => (r, w)) :=
  ⟨fun _ => (r, none), fun _ _ _ => rfl⟩

theorem Inside.andThen {f : Value → Except DataError α × Value}
    {g : α → Value → Except DataError β × Value} (hf : Inside node p f)
    (hg : ∀ a, Inside node p (g a)) : Inside node p (andThen f g) := by
  obtain ⟨f', hf⟩ := hf
  choose g' hg using hg
  let both (x : Option Value) : Except DataError β × Option Value :=
    match (f' x).1 with
    | .ok a => ((g' a ((f' x).2.or x)).1, (g' a ((f' x).2.or x)).2.or (f' x).2)
    | .error e => (.error e, (f' x).2)
  refine ⟨both, fun w m there => ?_⟩
  unfold Blob.andThen
  rw [hf w m there]
  dsimp only [both]
  cases (f' (Entries.get? m p)).1 with
  | error e => rfl
  | ok a =>
    dsimp only
    rw [hg a _ _ (lookup_put there _), get?_kept_self, put_put there]

theorem Touches.andThen {f : Value → Except DataError α × Value}
    {g : α → Value → Except DataError β × Value} (hf : Touches node p f)
    (hg : ∀ a, Inside node p (g a)) : Touches node p (andThen f g) where
  fails v none_ := by
    obtain ⟨e, failed⟩ := hf.fails v none_
    unfold Blob.andThen
    rw [failed]
    exact ⟨e, rfl⟩
  grounds v w m found := by
    unfold Blob.andThen
    rw [hf.grounds v w m found]
  inside := hf.inside.andThen hg

/-- **Updating a record touches one document.** -/
theorem touches_update (node p : String) (at_ : Float)
    (edit : Service.Monitor → Service.Monitor) :
    Touches node p fun v => (updateInstanceMonitor node p at_ edit).effect (Store.new v none) where
  fails v none_ := by
    obtain ⟨e, failed⟩ := updateInstanceMonitor_fails (s := Store.new v none) none_
    exact ⟨e, effect_of_error failed⟩
  grounds v w m found := by
    obtain ⟨t, made, rfl, there⟩ := ground_eq_some (s := Store.new v none) found
    have there' := makeStatuses_there there
    -- what follows the mapping starts from the same store
    have same : (updateInstanceMonitor node p at_ edit).effect (Store.new v none)
        = (updateInstanceMonitor node p at_ edit).effect t := by
      unfold effect updateInstanceMonitor
      rw [ensureInstance_eq]
      simp only [bind_assoc]
      rw [bind_ok made, bind_ok there']
    rw [same, effect_updateInstanceMonitor there,
      effect_updateInstanceMonitor (s := Store.new t.data none) there]
    rfl
  inside := ⟨amend node p at_ edit, fun w m there =>
    effect_updateInstanceMonitor (s := Store.new w none) there⟩

section

variable {f : Value → Except DataError α × Value} {g : Value → Except DataError β × Value}

/-- **Steps on two documents** do not get in each other's way: the second one answers as
if the first one had not been made, and in either order they leave the same tree. -/
theorem Touches.comm (hf : Touches node p f) (hg : Touches node q g) (ne : p ≠ q) (v : Value) :
    (g (f v).2).1 = (g v).1 ∧ (f (g v).2).1 = (f v).1 ∧ (g (f v).2).2 = (f (g v).2).2 := by
  cases found : ground node v with
  | none =>
    obtain ⟨e, failed⟩ := hf.fails v found
    obtain ⟨e', failed'⟩ := hg.fails v found
    rw [failed, failed', failed]
    exact ⟨rfl, rfl, rfl⟩
  | some found' =>
    obtain ⟨w, m⟩ := found'
    have there : w.lookup (statuses node) = some (.map m) := by
      obtain ⟨-, -, -, there⟩ := ground_eq_some (s := Store.new v none) found
      exact there
    rw [hf.grounds v w m found, hg.grounds v w m found]
    obtain ⟨f', hf⟩ := hf.inside
    obtain ⟨g', hg⟩ := hg.inside
    rw [hf w m there, hg w m there, hg _ _ (lookup_put there _), hf _ _ (lookup_put there _),
      get?_kept_of_ne ne, get?_kept_of_ne ne.symm]
    exact ⟨rfl, rfl, put_comm there ne _ _⟩

end

end Node.Blob

end HaCluster
