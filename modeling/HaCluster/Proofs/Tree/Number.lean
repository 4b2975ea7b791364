import Mathlib

/-!
# Equality of numbers

Two doubles are equal as numbers when they are the same double, or both are
zeros and their signs differ. A number that is not one differs from itself,
so equality of numbers is not equality; but once the sign of zeros is dropped
it is, on every number that equals itself. `plain` drops that sign, and the
laws of the tree are proved of plain numbers first.
-/

namespace HaCluster.Number

variable {x y : Float}

theorem zero_ne_nan : (0 : Float) ≠ Float.nan ∧ (-0 : Float) ≠ Float.nan := by decide

/-- A double equals zero exactly if it is one of the two zeros. -/
theorem beq_zero_iff : (x == 0) = true ↔ x = 0 ∨ x = -0 := by
  rw [Float.beq_iff_ne_nan_and_eq]
  constructor
  · rintro ⟨-, -, h | ⟨h, -⟩ | ⟨h, -⟩⟩
    · exact .inl h
    · exact .inl h
    · exact .inr h
  · rintro (rfl | rfl)
    · exact ⟨zero_ne_nan.1, zero_ne_nan.1, .inl rfl⟩
    · exact ⟨zero_ne_nan.2, zero_ne_nan.1, .inr (.inr ⟨rfl, rfl⟩)⟩

/-- Equal numbers are the same double or both zeros. -/
theorem eq_or_zero_of_beq (h : (x == y) = true) :
    x = y ∨ (x == 0) = true ∧ (y == 0) = true := by
  obtain ⟨-, -, h | ⟨hx, hy⟩ | ⟨hx, hy⟩⟩ := Float.beq_iff_ne_nan_and_eq.1 h
  · exact .inl h
  · exact .inr ⟨beq_zero_iff.2 (.inl hx), beq_zero_iff.2 (.inr hy)⟩
  · exact .inr ⟨beq_zero_iff.2 (.inr hx), beq_zero_iff.2 (.inl hy)⟩

theorem beq_of_zero (hx : (x == 0) = true) (hy : (y == 0) = true) : (x == y) = true := by
  rcases beq_zero_iff.1 hx with rfl | rfl <;> rcases beq_zero_iff.1 hy with rfl | rfl <;> decide

/-- A number without the sign of a zero. -/
def plain (x : Float) : Float := if x == 0 then 0 else x

/-- **Numbers are equal exactly if their plain forms are**, except that a
number which is none keeps its form and equals nothing. -/
theorem plain_eq_iff : plain x = plain y ↔ x = y ∨ (x == y) = true := by
  constructor
  · intro h
    unfold plain at h
    split at h <;> split at h <;> rename_i hx hy
    · exact .inr (beq_of_zero hx hy)
    · subst h
      exact absurd (beq_zero_iff.2 (.inl rfl)) hy
    · subst h
      exact absurd (beq_zero_iff.2 (.inl rfl)) hx
    · exact .inl h
  · rintro (rfl | h)
    · rfl
    · rcases eq_or_zero_of_beq h with rfl | ⟨hx, hy⟩
      · rfl
      · rw [plain, if_pos hx, plain, if_pos hy]

theorem beq_self_of_plain_eq (h : plain x = plain y) (hx : (x == x) = true) :
    (x == y) = true := by
  rcases plain_eq_iff.1 h with rfl | h
  · exact hx
  · exact h

/-- A number is one exactly if its plain form is. -/
theorem beq_self_plain (x : Float) : (plain x == plain x) = (x == x) := by
  unfold plain
  split
  · rename_i hx
    rw [beq_of_zero hx hx]
    rfl
  · rfl

end HaCluster.Number
