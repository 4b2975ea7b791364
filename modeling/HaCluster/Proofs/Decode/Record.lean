import HaCluster.Decode.Named
import HaCluster.Proofs.Tree.Entries

/-!
# What a record is read from

A record is read member by member, in the order of the document. A part of it
that one field alone has to do with is what the first member of that name says,
or the default if there is none (`IsPart.record`). So two readers that read one
member agree on it, whatever else they read.

What every field of a record keeps holds of every record that is read, however it
was written (`record_keeps`). What is written for a name, a number or a mapping is
read back as it was.
-/

namespace HaCluster

variable {σ α β : Type}

namespace Decode

/-! ## What succeeds -/

variable {ε : Type} {x : Except ε α}

theorem bind_eq_ok {f : α → Except ε β} {b : β} (h : x.bind f = .ok b) :
    ∃ a, x = .ok a ∧ f a = .ok b := by
  cases x with
  | error e => cases h
  | ok a => exact ⟨a, rfl, h⟩

theorem map_eq_ok {f : α → β} {b : β} (h : x.map f = .ok b) : ∃ a, x = .ok a ∧ f a = b := by
  cases x with
  | error e => cases h
  | ok a => exact ⟨a, rfl, Except.ok.inj h⟩

theorem eq_ok_of_toOption {a : α} (h : x.toOption = some a) : x = .ok a := by
  cases x with
  | error e => cases h
  | ok b => exact congrArg Except.ok (Option.some.inj h)

end Decode

namespace Field

/-- A field has nothing to do with a part of the record. -/
structure Spares (f : Field σ) (part : σ → α) : Prop where
  read {o : Origin} {j : Json} {update : σ → σ} (s : σ) :
    f.read o j = .ok update → part (update s) = part s
  absent {update : σ → σ} (s : σ) : f.absent = some update → part (update s) = part s

theorem spares_withDefault {part : σ → α} {name : String} {d : Decoder β} {default : β}
    {set : β → σ → σ} (h : ∀ x s, part (set x s) = part s) :
    (Field.withDefault name d default set).Spares part where
  read {o j update} s read := by
    obtain ⟨x, -, rfl⟩ := Decode.map_eq_ok (x := d o j) read
    exact h x s
  absent s absent := by
    cases absent
    exact h default s

/-- A field of another name that leaves a part of the record as it is. -/
theorem beside_withDefault {part : σ → α} {name other : String} {d : Decoder β} {default : β}
    {set : β → σ → σ} (ne : name ≠ other) (h : ∀ x s, part (set x s) = part s) :
    (Field.withDefault name d default set).name ≠ other
      ∧ (Field.withDefault name d default set).Spares part :=
  ⟨ne, spares_withDefault h⟩

/-- What a field reads of documents of a kind, and what stands where it is missing,
keeps a property of the record. -/
structure KeepsFrom (K : Json → Prop) (f : Field σ) (I : σ → Prop) : Prop where
  read {o : Origin} {j : Json} {update : σ → σ} {s : σ} :
    K j → f.read o j = .ok update → I s → I (update s)
  absent {update : σ → σ} {s : σ} : f.absent = some update → I s → I (update s)
  omitted {update : σ → σ} {s : σ} : f.omitted = some update → I s → I (update s)

/-- What a field reads, and what stands where it is missing, keeps a property of
the record. -/
structure Keeps (f : Field σ) (I : σ → Prop) : Prop where
  read {o : Origin} {j : Json} {update : σ → σ} {s : σ} :
    f.read o j = .ok update → I s → I (update s)
  absent {update : σ → σ} {s : σ} : f.absent = some update → I s → I (update s)
  omitted {update : σ → σ} {s : σ} : f.omitted = some update → I s → I (update s)

theorem Keeps.keepsFrom {I : σ → Prop} {f : Field σ} (h : f.Keeps I) (K : Json → Prop) :
    f.KeepsFrom K I where
  read _ := h.read
  absent := h.absent
  omitted := h.omitted

theorem keepsFrom_withDefault {K : Json → Prop} {I : σ → Prop} {name : String} {d : Decoder β}
    {default : β} {set : β → σ → σ} (read : ∀ {o j x s}, K j → d o j = .ok x → I s → I (set x s))
    (missing : ∀ {s}, I s → I (set default s)) :
    (Field.withDefault name d default set).KeepsFrom K I where
  read {o j update s} kind result h := by
    obtain ⟨x, value, rfl⟩ := Decode.map_eq_ok (x := d o j) result
    exact read kind value h
  absent eq h := by
    cases eq
    exact missing h
  omitted eq h := by
    cases eq
    exact missing h

theorem keeps_withDefault {I : σ → Prop} {name : String} {d : Decoder β} {default : β}
    {set : β → σ → σ} (read : ∀ {o j x s}, d o j = .ok x → I s → I (set x s))
    (missing : ∀ {s}, I s → I (set default s)) :
    (Field.withDefault name d default set).Keeps I :=
  have any : (Field.withDefault name d default set).KeepsFrom (fun _ => True) I :=
    keepsFrom_withDefault (fun _ => read) missing
  ⟨any.read trivial, any.absent, any.omitted⟩

/-- A field that has nothing to do with a property keeps it. -/
theorem keeps_beside {I : σ → Prop} {name : String} {d : Decoder β} {default : β}
    {set : β → σ → σ} (h : ∀ x s, I s → I (set x s)) :
    (Field.withDefault name d default set).Keeps I :=
  keeps_withDefault (fun _ => h _ _) (h _ _)

end Field

namespace Decode

/-! ## Parts of a record -/

/-- One field, and no other one, has to do with a part of the record. -/
structure IsPart (fs : List (Field σ)) (name : String) (d : Decoder α) (default : α)
    (set : α → σ → σ) (part : σ → α) : Prop where
  found : fs.find? (fun f => f.name = name) = some (.withDefault name d default set)
  part_set (x : α) (s : σ) : part (set x s) = x
  others : ∀ f ∈ fs, f = .withDefault name d default set ∨ f.name ≠ name ∧ f.Spares part

/-- A record that is written as an object. -/
theorem record_object (expected : String) (fs : List (Field σ)) (init : σ) (o : Origin)
    (ms : List (String × Json)) :
    record expected fs init o (.object ms)
      = (members fs o ms [] init).bind (fun r => settle r.1 fs r.2) := by
  cases o <;> rfl

/-- A member that a field reads. -/
theorem members_known {fs : List (Field σ)} {o : Origin} {name : String} {d : Decoder α}
    {default x : α} {set : α → σ → σ} {j : Json} {rest : List (String × Json)}
    {seen : List String} {s : σ}
    (found : fs.find? (fun f => f.name = name) = some (.withDefault name d default set))
    (fresh : seen.contains name = false) (read : d o j = .ok x) :
    members fs o ((name, j) :: rest) seen s = members fs o rest (name :: seen) (set x s) := by
  rw [members, found]
  dsimp only
  rw [fresh, if_neg Bool.false_ne_true]
  show ((d o j).map set).bind _ = _
  rw [read]
  rfl

namespace IsPart

variable {fs : List (Field σ)} {name : String} {d : Decoder α} {default : α} {set : α → σ → σ}
  {part : σ → α} (h : IsPart fs name d default set part) {o : Origin}
  {ms : List (String × Json)} {seen seen' : List String} {s s' : σ}

include h

/-- Reading on after one member: what its field does to the part. -/
theorem member {n : String} {j : Json}
    (read : members fs o ((n, j) :: ms) seen s = .ok (seen', s')) :
    n ≠ name ∧ (∃ seen₁ s₁, members fs o ms seen₁ s₁ = .ok (seen', s') ∧ part s₁ = part s
        ∧ (name ∈ seen₁ ↔ name ∈ seen))
      ∨ n = name ∧ name ∉ seen ∧ ∃ x, d o j = .ok x
        ∧ members fs o ms (name :: seen) (set x s) = .ok (seen', s') := by
  rw [members] at read
  cases known : fs.find? (fun f => f.name = n) with
  | none =>
    rw [known] at read
    have ne : n ≠ name := by
      rintro rfl
      rw [h.found] at known
      cases known
    dsimp only at read
    split at read
    · exact .inl ⟨ne, seen, s, read, rfl, Iff.rfl⟩
    · cases read
  | some f =>
    rw [known] at read
    dsimp only at read
    split at read
    · cases read
    rename_i fresh
    obtain ⟨update, result, read⟩ := bind_eq_ok read
    by_cases same : n = name
    · subst same
      rw [h.found] at known
      cases known
      obtain ⟨x, value, rfl⟩ := map_eq_ok (x := d o j) result
      exact .inr ⟨rfl, fun there => fresh (List.contains_iff_mem.2 there), x, value, read⟩
    · refine .inl ⟨same, n :: seen, update s, read, ?_, ?_⟩
      · have named : f.name = n := by simpa using List.find?_some known
        rcases h.others f (List.mem_of_find?_eq_some known) with own | ⟨-, spares⟩
        · rw [own] at named
          exact absurd named.symm same
        · exact spares.read s result
      · rw [List.mem_cons, or_iff_right (Ne.symm same)]

/-- Once its member was met, the part stays as it is. -/
theorem members_met (met : name ∈ seen) (read : members fs o ms seen s = .ok (seen', s')) :
    name ∈ seen' ∧ part s' = part s := by
  induction ms generalizing seen s with
  | nil =>
    cases read
    exact ⟨met, rfl⟩
  | cons e ms ih =>
    obtain ⟨n, j⟩ := e
    rcases h.member read with ⟨-, seen₁, s₁, read, same, there⟩ | ⟨-, fresh, -⟩
    · obtain ⟨met', kept⟩ := ih (there.2 met) read
      exact ⟨met', kept.trans same⟩
    · exact absurd met fresh

/-- The first member of the name settles the part. -/
theorem members_unmet (unmet : name ∉ seen) (read : members fs o ms seen s = .ok (seen', s')) :
    match Entries.get? ms name with
    | none => name ∉ seen' ∧ part s' = part s
    | some j => name ∈ seen' ∧ d o j = .ok (part s') := by
  induction ms generalizing seen s with
  | nil =>
    cases read
    exact ⟨unmet, rfl⟩
  | cons e ms ih =>
    obtain ⟨n, j⟩ := e
    rw [Entries.get?_cons]
    rcases h.member read with ⟨ne, seen₁, s₁, read, same, there⟩ | ⟨rfl, -, x, value, read⟩
    · rw [if_neg ne, ← same]
      exact ih (fun met => unmet (there.1 met)) read
    · obtain ⟨met, kept⟩ := h.members_met List.mem_cons_self read
      rw [if_pos rfl]
      exact ⟨met, by rw [kept, h.part_set, value]⟩

/-- What did not come is settled by the default. -/
theorem settle {l : List (Field σ)} (sub : ∀ f ∈ l, f ∈ fs)
    (met : name ∈ seen ∨ part s = default) (read : Decode.settle seen l s = .ok s') :
    part s' = part s := by
  induction l generalizing s with
  | nil =>
    cases read
    rfl
  | cons f l ih =>
    have rest := fun g hg => sub g (List.mem_cons_of_mem f hg)
    unfold Decode.settle at read
    split at read
    · exact ih rest met read
    rename_i unmet
    split at read
    · rename_i update absent
      have kept : part (update s) = part s := by
        rcases h.others f (sub f List.mem_cons_self) with rfl | ⟨-, spares⟩
        · -- the field itself did not come, so the part is the default already
          cases absent
          rw [h.part_set]
          exact (met.resolve_left fun there => unmet (List.contains_iff_mem.2 there)).symm
        · exact spares.absent s absent
      rw [ih rest (by rwa [kept]) read, kept]
    · cases read

/-- **A part of a record** is what the first member of its name says. -/
theorem record {expected : String} {init : σ} (blank : part init = default)
    (read : Decode.record expected fs init o (.object ms) = .ok s) :
    part s = ((Entries.get? ms name).bind (fun j => (d o j).toOption)).getD default := by
  rw [record_object] at read
  obtain ⟨⟨seen, t⟩, first, read⟩ := bind_eq_ok read
  have met := h.members_unmet List.not_mem_nil first
  cases found : Entries.get? ms name with
  | none =>
    rw [found] at met
    have unread : part t = default := met.2.trans blank
    rw [h.settle (fun _ hf => hf) (.inr unread) read, unread]
    rfl
  | some j =>
    rw [found] at met
    rw [h.settle (fun _ hf => hf) (.inl met.1) read, Option.bind_some, met.2]
    rfl

end IsPart

/-! ## What holds of every record that is read -/

section Keeps

variable {K : Json → Prop} {I : σ → Prop} {fs : List (Field σ)}
  (each : ∀ f ∈ fs, f.KeepsFrom K I) {o : Origin} {s s' : σ}

include each

theorem members_keeps {ms : List (String × Json)} {seen seen' : List String}
    (kind : ∀ e ∈ ms, K e.2) (h : I s)
    (read : members fs o ms seen s = .ok (seen', s')) : I s' := by
  induction ms generalizing seen s with
  | nil =>
    cases read
    exact h
  | cons e ms ih =>
    obtain ⟨n, j⟩ := e
    have rest := fun e he => kind e (List.mem_cons_of_mem _ he)
    rw [members] at read
    cases known : fs.find? (fun f => f.name = n) with
    | none =>
      rw [known] at read
      dsimp only at read
      split at read
      · exact ih rest h read
      · cases read
    | some f =>
      rw [known] at read
      dsimp only at read
      split at read
      · cases read
      · obtain ⟨update, result, read⟩ := bind_eq_ok read
        have here := each f (List.mem_of_find?_eq_some known)
        exact ih rest (here.read (kind _ List.mem_cons_self) result h) read

theorem settle_keeps {seen : List String} (h : I s) (read : settle seen fs s = .ok s') : I s' := by
  induction fs generalizing s with
  | nil =>
    cases read
    exact h
  | cons f fs ih =>
    have rest := fun g hg => each g (List.mem_cons_of_mem f hg)
    unfold settle at read
    split at read
    · exact ih rest h read
    · split at read
      · next absent => exact ih rest ((each f List.mem_cons_self).absent absent h) read
      · cases read

theorem items_keeps {expected : String} {i : Nat} {js : List Json} (kind : ∀ j ∈ js, K j)
    (h : I s) (read : items expected o i fs js s = .ok s') : I s' := by
  induction fs generalizing i js s with
  | nil =>
    cases js with
    | nil =>
      cases read
      exact h
    | cons j js =>
      cases o <;> cases read
      exact h
  | cons f fs ih =>
    have rest := fun g hg => each g (List.mem_cons_of_mem f hg)
    have here := each f List.mem_cons_self
    cases js with
    | nil =>
      rw [items] at read
      split at read
      · next omitted => exact ih rest kind (here.omitted omitted h) read
      · cases read
    | cons j js =>
      rw [items] at read
      obtain ⟨update, result, read⟩ := bind_eq_ok read
      exact ih rest (fun j hj => kind j (List.mem_cons_of_mem _ hj))
        (here.read (kind j List.mem_cons_self) result h) read

/-- **What every field keeps** of documents of a kind holds of every record that is
read from parts of this kind. -/
theorem record_keepsFrom {expected : String} {j : Json}
    (members : ∀ ms, j = .object ms → ∀ e ∈ ms, K e.2) (items : ∀ js, j = .array js → ∀ i ∈ js, K i)
    (h : I s) (read : record expected fs s o j = .ok s') : I s' := by
  cases j with
  | object ms =>
    rw [record_object] at read
    obtain ⟨⟨seen, t⟩, first, read⟩ := bind_eq_ok read
    exact settle_keeps each (members_keeps each (members ms rfl) h first) read
  | array js =>
    have sequence : Decode.items ("struct " ++ expected ++ " with " ++ elements fs.length) o 0 fs
        js s = .ok s' := by
      cases o <;> exact read
    exact items_keeps each (items js rfl) h sequence
  | _ => cases o <;> cases read

omit each

/-- **What every field keeps** holds of every record that is read. -/
theorem record_keeps (each : ∀ f ∈ fs, f.Keeps I) {expected : String} {j : Json} (h : I s)
    (read : record expected fs s o j = .ok s') : I s' :=
  record_keepsFrom (K := fun _ => True) (fun f hf => (each f hf).keepsFrom _)
    (fun _ _ _ _ => trivial) (fun _ _ _ _ => trivial) h read

end Keeps

/-! ## Which records can be read -/

/-- A member can be read by its field, or there is none and it is passed over. -/
def Admits (fs : List (Field σ)) (o : Origin) (e : String × Json) : Prop :=
  match fs.find? (fun f => f.name = e.1) with
  | none => passesOver e.1 e.2 = true
  | some f => ∃ update, f.read o e.2 = .ok update

section Admits

variable {fs : List (Field σ)} {o : Origin} {ms : List (String × Json)}

/-- Members of different names are read one by one. -/
theorem members_isOk_iff {seen : List String} {s : σ} (nodup : (ms.map Prod.fst).Nodup)
    (fresh : ∀ e ∈ ms, e.1 ∉ seen) :
    (∃ r, members fs o ms seen s = .ok r) ↔ ∀ e ∈ ms, Admits fs o e := by
  induction ms generalizing seen s with
  | nil => exact ⟨fun _ => nofun, fun _ => ⟨_, rfl⟩⟩
  | cons e ms ih =>
    obtain ⟨n, j⟩ := e
    obtain ⟨absent, nodup⟩ := List.nodup_cons.1 nodup
    have unseen := fresh (n, j) List.mem_cons_self
    have rest := fun e he => fresh e (List.mem_cons_of_mem _ he)
    have apart : ∀ e ∈ ms, e.1 ∉ n :: seen := fun e he there =>
      (List.mem_cons.1 there).elim (fun same => absent (same ▸ List.mem_map.2 ⟨e, he, rfl⟩))
        (rest e he)
    rw [List.forall_mem_cons, members, Admits]
    cases known : fs.find? (fun f => f.name = n) with
    | none =>
      dsimp only
      split
      · next passed => rw [ih nodup rest, and_iff_right passed]
      · next kept => exact ⟨fun ⟨_, failed⟩ => (nomatch failed), fun h => absurd h.1 kept⟩
    | some f =>
      dsimp only
      rw [if_neg (fun there => unseen (List.contains_iff_mem.1 there))]
      cases result : f.read o j with
      | error e => exact ⟨fun ⟨_, failed⟩ => (nomatch failed), fun ⟨⟨_, read⟩, _⟩ => (nomatch read)⟩
      | ok update =>
        rw [and_iff_right ⟨update, rfl⟩]
        exact ih nodup apart

theorem settle_isOk (optional : ∀ f ∈ fs, f.absent.isSome) (seen : List String) (s : σ) :
    ∃ s', settle seen fs s = .ok s' := by
  induction fs generalizing s with
  | nil => exact ⟨s, rfl⟩
  | cons f fs ih =>
    have rest := ih fun g hg => optional g (List.mem_cons_of_mem f hg)
    obtain ⟨update, absent⟩ := Option.isSome_iff_exists.1 (optional f List.mem_cons_self)
    unfold settle
    split
    · exact rest s
    · rw [absent]
      exact rest _

/-- **A record without required fields can be read** exactly if each of its members
can. -/
theorem record_isOk_iff {expected : String} {init : σ} (optional : ∀ f ∈ fs, f.absent.isSome)
    (nodup : (ms.map Prod.fst).Nodup) :
    (∃ s, record expected fs init o (.object ms) = .ok s) ↔ ∀ e ∈ ms, Admits fs o e := by
  rw [← members_isOk_iff (s := init) nodup (fun _ _ => List.not_mem_nil), record_object]
  cases first : members fs o ms [] init with
  | error e => exact ⟨fun ⟨_, failed⟩ => (nomatch failed), fun ⟨_, failed⟩ => (nomatch failed)⟩
  | ok r => exact ⟨fun _ => ⟨r, rfl⟩, fun _ => settle_isOk optional r.1 r.2⟩

end Admits

/-- A number that is read fits into its bits. -/
theorem lt_of_u32 {o : Origin} {j : Json} {n : Nat} (read : u32 o j = .ok n) : n < twoTo 32 := by
  change (integer 0 (((twoTo 32 : Nat) : Int) - 1) "u32" o j).map Int.toNat = _ at read
  have words : (twoTo 32 : Int) = 4294967296 := rfl
  show n < 4294967296
  unfold integer at read
  split at read
  · split at read
    · next fits =>
      cases read
      omega
    · cases read
  · unfold wrongType at read
    split at read <;> cases read

/-- What holds of the empty mapping, and goes on to hold when a value that was read is
inserted, holds of every mapping that is read. -/
theorem entries_keeps {d : Decoder α} {I : Entries α → Prop} {o : Origin} {j : Json}
    {m : Entries α} (empty : I [])
    (insert : ∀ {m key j x}, d o j = .ok x → I m → I (Entries.insert m key x))
    (read : entries d o j = .ok m) : I m := by
  cases j with
  | object ms =>
    change ms.foldlM _ [] = _ at read
    generalize ([] : Entries α) = sofar at empty read
    induction ms generalizing sofar with
    | nil =>
      cases read
      exact empty
    | cons e ms ih =>
      rw [List.foldlM_cons] at read
      obtain ⟨_, first, read⟩ := bind_eq_ok read
      obtain ⟨x, value, inserted⟩ := bind_eq_ok first
      cases inserted
      exact ih _ (insert value empty) read
  | _ => cases o <;> cases read

/-- What is read of every value holds of all the values of a mapping that is read. -/
theorem forall_entries {d : Decoder α} {P : α → Prop} {o : Origin} {j : Json} {m : Entries α}
    (each : ∀ {j x}, d o j = .ok x → P x) (read : entries d o j = .ok m) : ∀ e ∈ m, P e.2 := by
  refine entries_keeps (I := fun m => ∀ e ∈ m, P e.2) (by simp) (fun value h e he => ?_) read
  rcases Entries.mem_of_mem_insert he with rfl | he
  · exact each value
  · exact h e he

/-! ## Reading back -/

/-- A number that was written is read back. -/
theorem u32_ofNat {n : Nat} (h : n < twoTo 32) : u32 .value (Value.ofNat n).toJson = .ok n := by
  have small : n < 4294967296 := h
  have words : (twoTo 32 : Int) = 4294967296 ∧ (twoTo 63 : Int) = 9223372036854775808 := ⟨rfl, rfl⟩
  have written : (Value.ofNat n).toJson = Json.int n := by
    unfold Value.ofNat Value.ofNumber
    dsimp only
    rw [if_pos (by omega), Value.toJson, Int64.toInt_ofInt_of_le] <;> omega
  rw [written]
  show ((integer 0 _ "u32" .value (.number (.integer n))).map Int.toNat) = _
  unfold integer
  dsimp only
  rw [if_pos (by omega)]
  rfl

/-- A finite number that was written is read back. -/
theorem float_real {x : Float} (finite : x.isFinite = true) :
    float .value (Value.real x).toJson = .ok x := by
  unfold Value.real
  rw [if_pos finite, Value.toJson, Json.real, if_pos finite]
  rfl

/-- What may be absent is read back if it is read back when it is there. -/
theorem optional_ofOption {d : Decoder α} {f : α → Value} {a : Option α}
    (there : ∀ x, d .value (f x).toJson = .ok x) (notNull : ∀ x, (f x).toJson ≠ .null) :
    optional d .value (Value.ofOption f a).toJson = .ok a := by
  cases a with
  | none => rfl
  | some x =>
    show optional d .value (f x).toJson = _
    unfold optional
    split
    · rename_i null
      exact absurd null (notNull x)
    · rw [there]
      rfl

end Decode

namespace Value

theorem toJsonMembers_eq (m : Entries Value) : toJsonMembers m = Entries.mapValues toJson m := by
  induction m with
  | nil => rw [toJsonMembers, Entries.mapValues, List.map_nil]
  | cons e m ih =>
    obtain ⟨k, v⟩ := e
    rw [toJsonMembers, ih]
    rfl

end Value

namespace Entries

/-- What comes last in the order is stored at the end. -/
theorem insert_last {m : Entries α} {key : String} {x : α} (last : ∀ e ∈ m, e.1 < key) :
    insert m key x = m ++ [(key, x)] := by
  induction m with
  | nil => rfl
  | cons e m ih =>
    obtain ⟨k, v⟩ := e
    have lt : k < key := last (k, v) List.mem_cons_self
    rw [insert, if_neg (String.ne_of_lt lt), if_neg (String.lt_asymm lt),
      ih fun e he => last e (List.mem_cons_of_mem _ he)]
    rfl

/-- The next entry of a sorted mapping is stored behind those before it. -/
theorem insert_append {m rest : Entries α} {key : String} {x : α}
    (sorted : Sorted (m ++ (key, x) :: rest)) :
    insert m key x ++ rest = m ++ (key, x) :: rest := by
  have last : ∀ e ∈ m, e.1 < key := by
    intro e he
    unfold Sorted keys at sorted
    rw [List.map_append, List.pairwise_append] at sorted
    exact sorted.2.2 _ (List.mem_map_of_mem he) _ List.mem_cons_self
  rw [insert_last last, List.append_assoc, List.singleton_append]

end Entries

namespace Decode

/-- A mapping is read back if its values are. -/
theorem entries_mapValues {d : Decoder α} {f : α → Value} {m : Entries α}
    (sorted : Entries.Sorted m) (each : ∀ e ∈ m, d .value (f e.2).toJson = .ok e.2) :
    entries d .value (Value.map (Entries.mapValues f m)).toJson = .ok m := by
  rw [Value.toJson, Value.toJsonMembers_eq]
  -- the entries that were read so far come before those that are left
  suffices ∀ read : Entries α, Entries.Sorted (read ++ m) →
      (Entries.mapValues Value.toJson (Entries.mapValues f m)).foldlM (fun m e => do
        let x ← d .value e.2
        pure (Entries.insert m e.1 x)) read = Except.ok (read ++ m) from this [] sorted
  intro read
  clear sorted
  induction m generalizing read with
  | nil =>
    intro _
    rw [List.append_nil]
    rfl
  | cons e m ih =>
    obtain ⟨k, a⟩ := e
    intro sorted
    have stored := Entries.insert_append sorted
    rw [show Entries.mapValues Value.toJson (Entries.mapValues f ((k, a) :: m))
      = (k, (f a).toJson) :: Entries.mapValues Value.toJson (Entries.mapValues f m) from rfl,
      List.foldlM_cons, each (k, a) List.mem_cons_self]
    show List.foldlM _ (Entries.insert read k a) _ = _
    rw [← stored]
    exact ih (fun e he => each e (List.mem_cons_of_mem _ he)) _ (stored ▸ sorted)

end Decode

end HaCluster
