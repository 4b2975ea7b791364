import HaCluster.Proofs.Clock.Whole
import HaCluster.Proofs.Decode.Record

/-!
# What is read from the tree

The tree holds doubles that are no finite numbers, and a reader never meets them: a
value is read as a document, in which they have no text. So every number that is
read from a value of the tree is finite, as is every part of a record that is such a
number (`record_ofValue`, `isFinite_of_float`).
-/

namespace HaCluster.Decode

open Value

variable {σ : Type} {v : Value} {o : Origin} {j : Json} {x : Float}

/-- The document is that of a value of the tree. -/
def OfTree (j : Json) : Prop := ∃ v : Value, v.toJson = j

theorem ofTree_of_object {ms : List (String × Json)} (h : v.toJson = .object ms) :
    ∀ e ∈ ms, OfTree e.2 := by
  cases v with
  | map m =>
    rw [toJson, toJsonMembers_eq] at h
    obtain rfl := Json.object.inj h
    rintro _ mem
    obtain ⟨e, -, rfl⟩ := List.mem_map.1 mem
    exact ⟨e.2, rfl⟩
  | float y =>
    rw [toJson, Json.real] at h
    split at h <;> cases h
  | _ => cases h

theorem ofTree_of_array {js : List Json} (h : v.toJson = .array js) : ∀ i ∈ js, OfTree i := by
  cases v with
  | list l =>
    rw [toJson] at h
    obtain rfl := Json.array.inj h
    intro i mem
    induction l with
    | nil => cases mem
    | cons y l ih =>
      rcases List.mem_cons.1 mem with rfl | mem
      · exact ⟨y, rfl⟩
      · exact ih rfl mem
  | float y =>
    rw [toJson, Json.real] at h
    split at h <;> cases h
  | _ => cases h

/-- What every field keeps of documents of the tree holds of every record that is
read from a value of the tree. -/
theorem record_ofValue {I : σ → Prop} {fs : List (Field σ)} {expected : String} {init s : σ}
    (each : ∀ f ∈ fs, f.KeepsFrom OfTree I) (h : I init)
    (read : ofValue (record expected fs init) v = .ok s) : I s :=
  record_keepsFrom each (fun _ object => ofTree_of_object object)
    (fun _ array => ofTree_of_array array) h read

/-- **Numbers that are read from the tree** are finite. -/
theorem isFinite_of_float (tree : OfTree j) (read : float o j = .ok x) : x.isFinite = true := by
  obtain ⟨v, rfl⟩ := tree
  cases v with
  | int i =>
    obtain rfl : Float.ofInt i.toInt = x := Except.ok.inj read
    have low := i.le_toInt
    have high := i.toInt_lt
    exact Clock.isFinite_ofInt (by omega)
  | float y =>
    rw [toJson, Json.real] at read
    split at read
    · next finite =>
      obtain rfl : y = x := Except.ok.inj read
      exact finite
    · cases read
  | _ => cases read

end HaCluster.Decode
