import Mathlib
import HaCluster.Json.Printer
import HaCluster.Json.Reader

/-!
# Numbers that are read back

The reader of a numeral takes digits as long as there are any, so it matters
what follows the text of a number. In a document that is the end, a comma or
a closing bracket, and none of these continues a numeral (`Ends`): what is
read in front of it is what would be read alone (`readNumeral_append`).

Integers are read back as integers and doubles as doubles, because only the
text of a double has a point or an exponent. That the digits of a double give
the same double again is a property of that double (`ReadsBack`).
-/

namespace HaCluster.Json

/-! ## What follows a value -/

/-- What may follow a value in a document: nothing, a comma or a closing
bracket. -/
def Ends (rest : List Char) : Prop :=
  ∀ c ∈ rest.head?, c = ',' ∨ c = ']' ∨ c = '}'

theorem ends_nil : Ends [] := by simp [Ends]

theorem ends_cons {c : Char} {rest : List Char} (h : c = ',' ∨ c = ']' ∨ c = '}') :
    Ends (c :: rest) := by
  intro d hd
  obtain rfl : c = d := Option.some.inj hd
  exact h

namespace Ends

variable {rest : List Char}

theorem takeWhile_isDigit (h : Ends rest) : rest.takeWhile Char.isDigit = [] := by
  cases rest with
  | nil => rfl
  | cons c rest => rcases h c rfl with rfl | rfl | rfl <;> rfl

theorem dropWhile_isDigit (h : Ends rest) : rest.dropWhile Char.isDigit = rest := by
  cases rest with
  | nil => rfl
  | cons c rest => rcases h c rfl with rfl | rfl | rfl <;> rfl

end Ends

/-! ## Numerals with something after them -/

section Append

variable {cs rest : List Char} (ends : Ends rest)

include ends in
theorem takeDigits_append :
    takeDigits (cs ++ rest) = ((takeDigits cs).1, (takeDigits cs).2 ++ rest) := by
  induction cs with
  | nil => simp [takeDigits, ends.takeWhile_isDigit, ends.dropWhile_isDigit]
  | cons c cs ih =>
    simp only [takeDigits, Prod.mk.injEq] at ih
    by_cases digit : c.isDigit
    · simp [takeDigits, digit, ih.1, ih.2]
    · simp [takeDigits, digit]

include ends in
theorem readWhole_append :
    readWhole (cs ++ rest) = (readWhole cs).map fun r => (r.1, r.2 ++ rest) := by
  unfold readWhole
  rw [takeDigits_append ends]
  obtain ⟨ds, r⟩ := takeDigits cs
  match ds with
  | [] => rfl
  | [0] => rfl
  | [_ + 1] => rfl
  | 0 :: _ :: _ => rfl
  | (_ + 1) :: _ :: _ => rfl

include ends in
theorem readFraction_append :
    readFraction (cs ++ rest) = (readFraction cs).map fun r => (r.1, r.2 ++ rest) := by
  by_cases point : cs.head? = some '.'
  · obtain ⟨cs, rfl⟩ : ∃ tail, cs = '.' :: tail := List.head?_eq_some_iff.1 point
    rw [List.cons_append, readFraction, readFraction, takeDigits_append ends]
    obtain ⟨ds, r⟩ := takeDigits cs
    match ds with
    | [] => rfl
    | _ :: _ => rfl
  · cases cs with
    | nil =>
      cases rest with
      | nil => rfl
      | cons c rest => rcases ends c rfl with rfl | rfl | rfl <;> rfl
    | cons c cs =>
      have other : c ≠ '.' := fun h => point (congrArg some h)
      rw [List.cons_append, readFraction, readFraction]
      · rfl
      · rintro tail ⟨⟩
        exact other rfl
      · rintro tail ⟨⟩
        exact other rfl

/-- The sign of an exponent, and what follows it. -/
def takeSign : List Char → Bool × List Char
  | '+' :: ds => (false, ds)
  | '-' :: ds => (true, ds)
  | ds => (false, ds)

theorem takeSign_of_ne {ds : List Char} (plus : ds.head? ≠ some '+') (minus : ds.head? ≠ some '-') :
    takeSign ds = (false, ds) := by
  unfold takeSign
  split
  · exact absurd rfl plus
  · exact absurd rfl minus
  · rfl

/-- An exponent is its letter, a sign and digits. -/
theorem readExponent_cons (c : Char) (cs : List Char) :
    readExponent (c :: cs)
      = if c = 'e' ∨ c = 'E' then
          match takeDigits (takeSign cs).2 with
          | ([], _) => none
          | (digits, rest) => some (some ((takeSign cs).1, digits), rest)
        else some (none, c :: cs) := rfl

include ends in
theorem takeSign_append :
    takeSign (cs ++ rest) = ((takeSign cs).1, (takeSign cs).2 ++ rest) := by
  cases cs with
  | nil =>
    have none : rest.head? ≠ some '+' ∧ rest.head? ≠ some '-' := by
      cases rest with
      | nil => simp
      | cons c rest => rcases ends c rfl with rfl | rfl | rfl <;> simp
    rw [List.nil_append, takeSign_of_ne none.1 none.2]
    rfl
  | cons c cs =>
    by_cases plus : c = '+'
    · subst plus
      rfl
    · by_cases minus : c = '-'
      · subst minus
        rfl
      · rw [takeSign_of_ne (by simpa using plus) (by simpa using minus),
          takeSign_of_ne (by simpa using plus) (by simpa using minus)]

include ends in
theorem readExponent_append :
    readExponent (cs ++ rest) = (readExponent cs).map fun r => (r.1, r.2 ++ rest) := by
  cases cs with
  | nil =>
    cases rest with
    | nil => rfl
    | cons c rest => rcases ends c rfl with rfl | rfl | rfl <;> rfl
  | cons c cs =>
    rw [List.cons_append, readExponent_cons, readExponent_cons]
    by_cases letter : c = 'e' ∨ c = 'E'
    · rw [if_pos letter, if_pos letter, takeSign_append ends, takeDigits_append ends]
      obtain ⟨ds, r⟩ := takeDigits (takeSign cs).2
      match ds with
      | [] => rfl
      | _ :: _ => rfl
    · rw [if_neg letter, if_neg letter]
      rfl

/-- A numeral without its sign. -/
def readUnsigned (negative : Bool) (cs : List Char) : Option (Numeral × List Char) := do
  let (whole, cs) ← readWhole cs
  let (fraction, cs) ← readFraction cs
  let (exponent, cs) ← readExponent cs
  pure (⟨negative, whole, fraction, exponent⟩, cs)

theorem readNumeral_minus (cs : List Char) :
    readNumeral ('-' :: cs) = readUnsigned true cs := rfl

theorem readNumeral_of_ne {cs : List Char} (minus : cs.head? ≠ some '-') :
    readNumeral cs = readUnsigned false cs := by
  unfold readNumeral
  split
  rename_i negative rest h
  split at h
  · exact absurd rfl minus
  · obtain ⟨rfl, rfl⟩ := Prod.mk.inj h
    rfl

include ends in
theorem readUnsigned_append (negative : Bool) :
    readUnsigned negative (cs ++ rest)
      = (readUnsigned negative cs).map fun r => (r.1, r.2 ++ rest) := by
  unfold readUnsigned
  rw [readWhole_append ends]
  cases readWhole cs with
  | none => rfl
  | some whole =>
    simp only [Option.map_some, Option.bind_eq_bind, Option.bind_some, readFraction_append ends]
    cases readFraction whole.2 with
    | none => rfl
    | some fraction =>
      simp only [Option.map_some, Option.bind_some, readExponent_append ends]
      cases readExponent fraction.2 with
      | none => rfl
      | some exponent => rfl

include ends in
/-- **A numeral is read as if nothing followed it.** -/
theorem readNumeral_append :
    readNumeral (cs ++ rest) = (readNumeral cs).map fun r => (r.1, r.2 ++ rest) := by
  by_cases minus : cs.head? = some '-'
  · obtain ⟨cs, rfl⟩ : ∃ tail, cs = '-' :: tail := List.head?_eq_some_iff.1 minus
    rw [List.cons_append, readNumeral_minus, readNumeral_minus, readUnsigned_append ends]
  · have minus' : (cs ++ rest).head? ≠ some '-' := by
      cases cs with
      | nil =>
        cases rest with
        | nil => simp
        | cons c rest => rcases ends c rfl with rfl | rfl | rfl <;> simp
      | cons c cs => exact minus
    rw [readNumeral_of_ne minus, readNumeral_of_ne minus', readUnsigned_append ends]

end Append

/-! ## Integers -/

/-- The decimal digits of a number are digits. -/
theorem takeDigits_toDigits (n : Nat) :
    takeDigits (Nat.toDigits 10 n) = ((Nat.toDigits 10 n).map digitValue, []) := by
  have digits : ∀ c ∈ Nat.toDigits 10 n, c.isDigit = true := fun c hc =>
    Nat.isDigit_of_mem_toDigits (by decide) (by decide) hc
  unfold takeDigits
  rw [List.takeWhile_eq_self_iff.2 digits, List.dropWhile_eq_nil_iff.2 digits]

/-- The decimal digits of a number stand for it. -/
theorem ofDigits_toDigits (n : Nat) : ofDigits ((Nat.toDigits 10 n).map digitValue) = n := by
  have value := Nat.ofDigitChars_ten_toDigits (n := n)
  rw [Nat.ofDigitChars_eq_foldl] at value
  rw [ofDigits, List.foldl_map]
  exact value

/-- A number other than zero does not begin with the digit zero. -/
theorem head?_toDigits {n : Nat} (pos : 0 < n) : (Nat.toDigits 10 n).head? ≠ some '0' := by
  induction n using Nat.strongRecOn with
  | _ n ih =>
    rcases Nat.lt_or_ge n 10 with small | large
    · rw [Nat.toDigits_of_lt_base small]
      simp
      omega
    · rw [Nat.toDigits_of_base_le (by decide) large,
        List.head?_append_of_ne_nil _ Nat.toDigits_ne_nil]
      exact ih (n / 10) (by omega) (by omega)

theorem digitValue_ne_zero {c : Char} (digit : c.isDigit = true) (ne : c ≠ '0') :
    digitValue c ≠ 0 := by
  have bounds := Char.isDigit_iff_toNat.1 digit
  have value : c.toNat ≠ '0'.toNat := fun h => ne (Char.toNat_inj.1 h)
  unfold digitValue
  omega

/-- The digits of a number are read as the whole of a numeral. -/
theorem readWhole_toDigits (n : Nat) :
    readWhole (Nat.toDigits 10 n) = some ((Nat.toDigits 10 n).map digitValue, []) := by
  rcases Nat.eq_zero_or_pos n with rfl | pos
  · rw [Nat.toDigits_zero]
    rfl
  · unfold readWhole
    rw [takeDigits_toDigits]
    obtain ⟨c, cs, digits_eq⟩ := List.exists_cons_of_ne_nil (Nat.toDigits_ne_nil (n := n) (b := 10))
    have digit : c.isDigit = true := by
      refine Nat.isDigit_of_mem_toDigits (b := 10) (n := n) (by decide) (by decide) ?_
      rw [digits_eq]
      exact List.mem_cons_self
    have ne : c ≠ '0' := by
      rintro rfl
      exact head?_toDigits pos (by rw [digits_eq]; rfl)
    obtain ⟨d, d_eq⟩ := Nat.exists_eq_succ_of_ne_zero (digitValue_ne_zero digit ne)
    rw [digits_eq, List.map_cons, d_eq]
    cases cs with
    | nil => rfl
    | cons _ _ => rfl

/-- The numeral of an integer. -/
def integerNumeral (n : Int) : Numeral :=
  ⟨decide (n < 0), (Nat.toDigits 10 n.natAbs).map digitValue, [], none⟩

theorem readUnsigned_toDigits (negative : Bool) (n : Nat) :
    readUnsigned negative (Nat.toDigits 10 n)
      = some (⟨negative, (Nat.toDigits 10 n).map digitValue, [], none⟩, []) := by
  unfold readUnsigned
  rw [readWhole_toDigits]
  rfl

theorem head?_toDigits_ne_minus (n : Nat) : (Nat.toDigits 10 n).head? ≠ some '-' := by
  intro minus
  have digit := Nat.isDigit_of_mem_toDigits (b := 10) (n := n) (by decide) (by decide)
    (List.mem_of_mem_head? minus)
  exact absurd digit (by decide)

/-- The text of an integer is a numeral. -/
theorem readNumeral_toString (n : Int) :
    readNumeral (toString n).toList = some (integerNumeral n, []) := by
  rw [Int.toString_eq_repr, Int.repr_eq_if, integerNumeral]
  split_ifs with sign
  · rw [Nat.toList_repr, readNumeral_of_ne (head?_toDigits_ne_minus _), readUnsigned_toDigits,
      decide_eq_false (by omega), show n.natAbs = n.toNat by omega]
  · have text : ("-" ++ (-n).toNat.repr).toList = '-' :: Nat.toDigits 10 (-n).toNat := by
      rw [String.toList_append, Nat.toList_repr]
      rfl
    rw [text, readNumeral_minus, readUnsigned_toDigits, decide_eq_true (by omega),
      show n.natAbs = (-n).toNat by omega]

/-- **An integer of 64 bits is read back as an integer.** -/
theorem value?_integerNumeral {n : Int} (low : -twoTo 63 ≤ n) (high : n < twoTo 64) :
    (integerNumeral n).value? = some (.integer n) := by
  unfold Numeral.value? integerNumeral
  simp only [ofDigits_toDigits, List.isEmpty_nil, Option.isNone_none, and_self, ↓reduceIte]
  by_cases negative : n < 0
  · rw [if_neg (by simp [negative]), if_pos (by simp [negative]; omega)]
    congr 2
    omega
  · rw [if_pos (by simp [negative]; omega)]
    congr 2
    omega

/-! ## Doubles -/

/-- **The text of a double reads back as it**: the reader takes it for a
numeral, and finds the same double in its digits. -/
def ReadsBack (x : Float) : Prop :=
  ∃ n, readNumeral (Decimal.shortestText x).toList = some (n, []) ∧ n.toFloat? = some x

theorem isDigit_of_readWhole {cs : List Char} {ds : List Nat} (read : readWhole cs = some (ds, [])) :
    ∀ c ∈ cs, c.isDigit = true := by
  have rest : (takeDigits cs).2 = [] := by
    unfold readWhole at read
    split at read
    · cases read
    · cases read
    · rw [Option.some.inj read]
  exact List.dropWhile_eq_nil_iff.1 rest

theorem eq_nil_of_readFraction {cs rest : List Char} (read : readFraction cs = some ([], rest)) :
    cs = rest := by
  unfold readFraction at read
  split at read
  · split at read
    · cases read
    · rename_i h
      exact (h rest (Option.some.inj read)).elim
  · exact (Prod.mk.inj (Option.some.inj read)).2

theorem eq_nil_of_readExponent {cs : List Char} (read : readExponent cs = some (none, [])) :
    cs = [] := by
  cases cs with
  | nil => rfl
  | cons c cs =>
    rw [readExponent_cons] at read
    split at read
    · split at read <;> cases read
    · cases read

/-- A numeral without point and exponent is a sign and digits. -/
theorem isDigit_of_readNumeral {cs : List Char} {n : Numeral}
    (read : readNumeral cs = some (n, [])) (fraction : n.fraction = [])
    (exponent : n.exponent = none) : ∀ c ∈ cs, c.isDigit = true ∨ c = '-' := by
  have unsigned {negative : Bool} {cs : List Char}
      (read : readUnsigned negative cs = some (n, [])) : ∀ c ∈ cs, c.isDigit = true := by
    obtain ⟨⟨ds, afterWhole⟩, whole, read⟩ := Option.bind_eq_some_iff.1 read
    obtain ⟨⟨fs, afterPoint⟩, point, read⟩ := Option.bind_eq_some_iff.1 read
    obtain ⟨⟨e, last⟩, letter, read⟩ := Option.bind_eq_some_iff.1 read
    obtain ⟨rfl, rfl⟩ := Prod.mk.inj (Option.some.inj read)
    obtain rfl : fs = [] := fraction
    obtain rfl : e = none := exponent
    obtain rfl := eq_nil_of_readExponent letter
    obtain rfl := eq_nil_of_readFraction point
    exact isDigit_of_readWhole whole
  intro c mem
  by_cases minus : cs.head? = some '-'
  · obtain ⟨cs, rfl⟩ : ∃ tail, cs = '-' :: tail := List.head?_eq_some_iff.1 minus
    rw [readNumeral_minus] at read
    rcases List.mem_cons.1 mem with rfl | mem
    · exact .inr rfl
    · exact .inl (unsigned read c mem)
  · rw [readNumeral_of_ne minus] at read
    exact .inl (unsigned read c mem)

/-- The text of a positive decimal has a point or an exponent. -/
theorem exists_mem_text (d : Decimal.Digits) : ∃ c ∈ d.text, c = '.' ∨ c = 'e' := by
  unfold Decimal.Digits.text
  dsimp only
  split_ifs
  · exact ⟨'.', by simp, .inl rfl⟩
  · exact ⟨'.', by simp, .inl rfl⟩
  · exact ⟨'.', by simp, .inl rfl⟩
  all_goals
    split <;> exact ⟨'e', by simp, .inr rfl⟩

/-- The text of a double has a point or an exponent. -/
theorem exists_mem_shortestText (x : Float) :
    ∃ c ∈ (Decimal.shortestText x).toList, c = '.' ∨ c = 'e' := by
  have magnitude : ∃ c ∈ (if (Decimal.Binary.ofFloat x).mantissa = 0 then ['0', '.', '0']
      else (Decimal.shortest (Decimal.Binary.ofFloat x)).text), c = '.' ∨ c = 'e' := by
    split
    · exact ⟨'.', by simp, .inl rfl⟩
    · exact exists_mem_text _
  obtain ⟨c, mem, letter⟩ := magnitude
  refine ⟨c, ?_, letter⟩
  unfold Decimal.shortestText
  rw [String.toList_ofList]
  split
  · exact List.mem_cons_of_mem _ mem
  · exact mem

/-- **A double that reads back is read as a double**, never as an integer. -/
theorem ReadsBack.value? {x : Float} (h : ReadsBack x) :
    ∃ n, readNumeral (Decimal.shortestText x).toList = some (n, []) ∧ n.value? = some (.real x) := by
  obtain ⟨n, read, value⟩ := h
  refine ⟨n, read, ?_⟩
  have real : ¬(n.fraction.isEmpty ∧ n.exponent.isNone) := by
    rintro ⟨fraction, exponent⟩
    obtain ⟨c, mem, letter⟩ := exists_mem_shortestText x
    rcases isDigit_of_readNumeral read (List.isEmpty_iff.1 fraction)
      (Option.isNone_iff_eq_none.1 exponent) c mem with digit | rfl
    · rcases letter with rfl | rfl <;> exact absurd digit (by decide)
    · rcases letter with letter | letter <;> exact absurd letter (by decide)
  simp only [Numeral.value?]
  rw [if_neg real, value]
  rfl

end HaCluster.Json
