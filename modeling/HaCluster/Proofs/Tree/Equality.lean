import HaCluster.Tree.Value
import HaCluster.Proofs.Tree.Entries
import HaCluster.Proofs.Tree.Number

/-!
# Equality of values

Equality of values compares numbers as numbers, so it is not equality: the
two zeros are equal, and a number that is none is not equal to itself. The
plain form of a value drops the signs of its zeros. Values with one plain
form are equal as soon as every number in them is one (`beq_iff_plain_eq`),
and plain forms can be rewritten, which equality of values cannot.

What holds of a value and of everything inside it is stated once, as
`Everywhere`; that every number is one and that every mapping is sorted are
its two instances.
-/

namespace HaCluster.Value

variable {p : Value → Prop}

/-! ## Properties of a value and of everything inside -/

mutual

/-- A property holds of a value and of every value inside it. -/
def Everywhere (p : Value → Prop) : Value → Prop
  | .list l => p (.list l) ∧ EverywhereItems p l
  | .map m => p (.map m) ∧ EverywhereEntries p m
  | v => p v

/-- A property holds everywhere in the items of a list. -/
def EverywhereItems (p : Value → Prop) : List Value → Prop
  | [] => True
  | v :: rest => Everywhere p v ∧ EverywhereItems p rest

/-- A property holds everywhere in the values of a mapping. -/
def EverywhereEntries (p : Value → Prop) : List (String × Value) → Prop
  | [] => True
  | (_, v) :: rest => Everywhere p v ∧ EverywhereEntries p rest

end

theorem everywhereItems_iff {l : List Value} :
    EverywhereItems p l ↔ ∀ v ∈ l, Everywhere p v := by
  induction l with
  | nil => simp [EverywhereItems]
  | cons v rest ih => simp [EverywhereItems, ih]

theorem everywhereEntries_iff {m : List (String × Value)} :
    EverywhereEntries p m ↔ ∀ e ∈ m, Everywhere p e.2 := by
  induction m with
  | nil => simp [EverywhereEntries]
  | cons e rest ih => simp [EverywhereEntries, ih]

theorem everywhere_list {l : List Value} :
    Everywhere p (.list l) ↔ p (.list l) ∧ ∀ v ∈ l, Everywhere p v := by
  rw [Everywhere, everywhereItems_iff]

theorem everywhere_map {m : List (String × Value)} :
    Everywhere p (.map m) ↔ p (.map m) ∧ ∀ e ∈ m, Everywhere p e.2 := by
  rw [Everywhere, everywhereEntries_iff]

/-- The number in a value, if it is one, is a number. -/
def isNumber : Value → Prop
  | .float x => (x == x) = true
  | _ => True

/-- **Every number in the value is one**: none differs from itself. -/
abbrev NoNaN (v : Value) : Prop := Everywhere isNumber v

/-- The keys of a value, if it is a mapping, ascend. -/
def isSorted : Value → Prop
  | .map m => Entries.Sorted m
  | _ => True

/-- **Every mapping in the value is sorted by its keys.** -/
abbrev Sorted (v : Value) : Prop := Everywhere isSorted v

theorem Sorted.entries {m : List (String × Value)} (h : Sorted (.map m)) :
    Entries.Sorted m :=
  (everywhere_map.1 h).1

/-! ## Plain values -/

mutual

/-- A value without the signs of its zeros. -/
def plain : Value → Value
  | .float x => .float (Number.plain x)
  | .list l => .list (plainItems l)
  | .map m => .map (plainEntries m)
  | v => v

/-- Items without the signs of their zeros. -/
def plainItems : List Value → List Value
  | [] => []
  | v :: rest => plain v :: plainItems rest

/-- Entries without the signs of their zeros. -/
def plainEntries : List (String × Value) → List (String × Value)
  | [] => []
  | (k, v) :: rest => (k, plain v) :: plainEntries rest

end

theorem plainItems_eq (l : List Value) : plainItems l = l.map plain := by
  induction l with
  | nil => rfl
  | cons v rest ih => rw [plainItems, ih, List.map_cons]

theorem plainEntries_eq (m : List (String × Value)) :
    plainEntries m = Entries.mapValues plain m := by
  induction m with
  | nil => rfl
  | cons e rest ih =>
    rw [plainEntries, ih]
    rfl

@[simp] theorem plain_list (l : List Value) : plain (.list l) = .list (l.map plain) := by
  rw [plain, plainItems_eq]

@[simp] theorem plain_map (m : List (String × Value)) :
    plain (.map m) = .map (Entries.mapValues plain m) := by
  rw [plain, plainEntries_eq]

/-! ## Equality of values is equality of plain forms -/

mutual

/-- Equal values have one plain form. -/
theorem plain_eq_of_beq {v w : Value} (h : beq v w = true) : v.plain = w.plain := by
  cases v <;> cases w <;> simp only [beq, Bool.false_eq_true, beq_iff_eq] at h
  case null.null => rfl
  case bool.bool => rw [h]
  case int.int => rw [h]
  case float.float => exact congrArg Value.float (Number.plain_eq_iff.2 (.inr h))
  case str.str => rw [h]
  case list.list l l' => exact congrArg Value.list (plainItems_eq_of_beq h)
  case map.map m m' => exact congrArg Value.map (plainEntries_eq_of_beq h)

theorem plainItems_eq_of_beq {l l' : List Value} (h : beqItems l l' = true) :
    plainItems l = plainItems l' := by
  match l, l' with
  | [], [] => rfl
  | [], _ :: _ => cases h
  | _ :: _, [] => cases h
  | v :: rest, v' :: rest' =>
    rw [beqItems, Bool.and_eq_true] at h
    rw [plainItems, plainItems, plain_eq_of_beq h.1, plainItems_eq_of_beq h.2]

theorem plainEntries_eq_of_beq {m m' : List (String × Value)}
    (h : beqEntries m m' = true) : plainEntries m = plainEntries m' := by
  match m, m' with
  | [], [] => rfl
  | [], _ :: _ => cases h
  | _ :: _, [] => cases h
  | (k, v) :: rest, (k', v') :: rest' =>
    rw [beqEntries, Bool.and_eq_true, Bool.and_eq_true, beq_iff_eq] at h
    rw [plainEntries, plainEntries, h.1.1, plain_eq_of_beq h.1.2,
      plainEntries_eq_of_beq h.2]

end

mutual

/-- Values with one plain form are equal if every number in them is one. -/
theorem beq_of_plain_eq {v w : Value} (hv : v.NoNaN) (h : v.plain = w.plain) :
    beq v w = true := by
  cases v <;> cases w <;> simp only [plain, reduceCtorEq] at h
  case null.null => rfl
  case bool.bool => exact beq_iff_eq.2 (Value.bool.inj h)
  case int.int => exact beq_iff_eq.2 (Value.int.inj h)
  case float.float => exact Number.beq_self_of_plain_eq (Value.float.inj h) hv
  case str.str => exact beq_iff_eq.2 (Value.str.inj h)
  case list.list l l' => exact beqItems_of_plain_eq hv.2 (Value.list.inj h)
  case map.map m m' => exact beqEntries_of_plain_eq hv.2 (Value.map.inj h)

theorem beqItems_of_plain_eq {l l' : List Value} (hl : EverywhereItems isNumber l)
    (h : plainItems l = plainItems l') : beqItems l l' = true := by
  match l, l' with
  | [], [] => rfl
  | [], _ :: _ => cases h
  | _ :: _, [] => cases h
  | v :: rest, v' :: rest' =>
    rw [plainItems, plainItems] at h
    obtain ⟨hv, hrest⟩ := List.cons.inj h
    rw [beqItems, beq_of_plain_eq hl.1 hv, beqItems_of_plain_eq hl.2 hrest]
    rfl

theorem beqEntries_of_plain_eq {m m' : List (String × Value)}
    (hm : EverywhereEntries isNumber m) (h : plainEntries m = plainEntries m') :
    beqEntries m m' = true := by
  match m, m' with
  | [], [] => rfl
  | [], _ :: _ => cases h
  | _ :: _, [] => cases h
  | (k, v) :: rest, (k', v') :: rest' =>
    rw [plainEntries, plainEntries] at h
    obtain ⟨he, hrest⟩ := List.cons.inj h
    obtain ⟨rfl, hv⟩ := Prod.mk.inj he
    rw [beqEntries, beq_of_plain_eq hm.1 hv, beqEntries_of_plain_eq hm.2 hrest]
    simp

end

/-- **Values are equal exactly if their plain forms are**, as long as every
number in them is one. -/
theorem beq_iff_plain_eq {v w : Value} (hv : v.NoNaN) :
    (v == w) = true ↔ v.plain = w.plain :=
  ⟨plain_eq_of_beq, beq_of_plain_eq hv⟩

end HaCluster.Value
