import Funlet.Proofs.Data.Documents
import Funlet.Proofs.Number.Numerals

/-!
# Numbers and words in JSON text

The text of a number is a number of JSON, since it has no needless zeros in front and digits behind
its point.  An integer is told from a fraction by its text.
-/

set_option autoImplicit false

namespace Funlet.Json

/-! ## Numbers -/

theorem withoutMinus_signText (negative : Bool) {c : Char} (digit : c.isDigit = true)
    (rest : List Char) : withoutMinus (Numeral.signText negative ++ c :: rest) = c :: rest := by
  cases negative with
  | true => rfl
  | false =>
    change withoutMinus (c :: rest) = c :: rest
    unfold withoutMinus
    split
    · rename_i minus
      obtain ⟨rfl, _⟩ := List.cons.inj minus
      exact absurd digit (by decide)
    · rfl

/-- Digits with a zero in front only if it is the only one are the beginning of a number. -/
theorem readNumber?_of_digits (negative : Bool) {before rest : List Char}
    (digits : ∀ c ∈ before, c.isDigit = true)
    (leading : before = ['0'] ∨ ∃ first more, before = first :: more ∧ first ≠ '0')
    (stops : ∀ c ∈ rest.head?, c.isDigit = false) :
    readNumber? (Numeral.signText negative ++ (before ++ rest)) =
      if rest.isEmpty then
        (Numeral.readInteger?
          (String.ofList (Numeral.signText negative ++ (before ++ rest)))).map .int
      else if isFractional rest then
        (Numeral.readReal?
          (String.ofList (Numeral.signText negative ++ (before ++ rest)))).map .float
      else none := by
  have unsigned :
      withoutMinus (Numeral.signText negative ++ (before ++ rest)) = before ++ rest := by
    rcases leading with rfl | ⟨first, more, rfl, _⟩
    · exact withoutMinus_signText negative (by decide) rest
    · exact withoutMinus_signText negative (digits first (by simp)) (more ++ rest)
  have wellFormed :
      (before.isEmpty || (before.head? == some '0' && before.length != 1)) = false := by
    rcases leading with rfl | ⟨first, more, rfl, nonzero⟩
    · rfl
    · simp [nonzero]
  simp only [readNumber?, unsigned, takeWhile_append_of_stops digits stops,
    dropWhile_append_of_stops digits stops, wellFormed, Bool.false_eq_true, if_false]

theorem readNumber?_signed {n : Int} (short : n.natAbs < power 10 Numeral.maxIntegerDigits) :
    readNumber? (Digits.signed n).toList = some (.int n) := by
  have leading : Digits.ofNat 10 n.natAbs = ['0'] ∨
      ∃ first more, Digits.ofNat 10 n.natAbs = first :: more ∧ first ≠ '0' := by
    rcases Nat.eq_zero_or_pos n.natAbs with zero | positive
    · rw [zero, Digits.ofNat]
      exact .inl rfl
    · exact .inr (Digits.exists_ofNat_eq_cons positive)
  have shape := readNumber?_of_digits (decide (n < 0)) (fun _ => Digits.isDigit_of_mem_ofNat)
    leading (by simp : ∀ c ∈ ([] : List Char).head?, c.isDigit = false)
  rw [List.append_nil, ← Digits.signed_eq, Numeral.readInteger?_signed short] at shape
  rw [Digits.signed_eq, String.toList_ofList, shape]
  rfl

theorem isFractional_of_broken (f : Fraction) :
    isFractional ((if f.after = [] then [] else '.' :: f.after) ++ exponentText f.exponent) =
      true := by
  have isExponent : (Numeral.exponentOf? (exponentText f.exponent)).isSome = true := by
    rw [f.exponentOf?_text]
    rfl
  have stops : ∀ c ∈ (exponentText f.exponent).head?, c.isDigit = false :=
    fun c head => (f.stops_exponent c head).1
  by_cases none : f.after = []
  · have past : pastFraction? (exponentText f.exponent) = some (exponentText f.exponent) := by
      unfold pastFraction?
      split
      · rename_i point
        exact absurd rfl (f.stops_exponent '.' (by rw [point]; rfl)).2
      · rfl
    rw [if_pos none, List.nil_append, isFractional, past]
    exact isExponent
  · have filled : f.after.isEmpty = false := by simpa using none
    have past : pastFraction? ('.' :: (f.after ++ exponentText f.exponent)) =
        some (exponentText f.exponent) := by
      simp only [pastFraction?, takeWhile_append_of_stops f.afterDigits stops,
        dropWhile_append_of_stops f.afterDigits stops, filled, Bool.false_eq_true, if_false]
    rw [if_neg none, List.cons_append, isFractional, past]
    exact isExponent

theorem readNumber?_fraction {f : Fraction} (bounded : f.Bounded) (negative : Bool) :
    readNumber? (Numeral.signText negative ++ f.text) =
      some (.float (.ofSize negative f.decimal.nearest)) := by
  have fractional := isFractional_of_broken f
  have textIs : f.text =
      f.before ++ ((if f.after = [] then [] else '.' :: f.after) ++ exponentText f.exponent) := by
    rw [Fraction.text, literalText, List.append_assoc]
  have stops : ∀ c ∈ ((if f.after = [] then [] else '.' :: f.after) ++
      exponentText f.exponent).head?, c.isDigit = false := by
    intro c head
    by_cases none : f.after = []
    · rw [if_pos none] at head
      exact (f.stops_exponent c head).1
    · rw [if_neg none] at head
      obtain rfl : '.' = c := Option.some.inj head
      decide
  have filled : ((if f.after = [] then [] else '.' :: f.after) ++
      exponentText f.exponent).isEmpty = false := by
    rcases f.broken with point | power
    · simp [point]
    · cases given : f.exponent with
      | none => exact absurd given power
      | some exponent => simp [exponentText]
  have shape := readNumber?_of_digits negative f.beforeDigits f.leading stops
  rw [← textIs, f.readReal?_text bounded negative, filled, fractional] at shape
  exact shape

/-! ## Words -/

theorem isWordChar_of_isNumeralChar {c : Char} (numeral : IsNumeralChar c) :
    isWordChar c = true := by
  rcases numeral with (digit | rfl) | rfl | rfl | rfl
  · simp [isWordChar, digit]
  · decide
  · decide
  · decide
  · decide

theorem readWord?_of_number {word : List Char} {value : Document}
    (numeral : ∀ c ∈ word, IsNumeralChar c) (read : readNumber? word = some value) :
    readWord? word = some value := by
  have noLetter {c : Char} (code : 101 < c.toNat) (rest : List Char) : word ≠ c :: rest := by
    rintro rfl
    have := (numeral c (by simp)).toNat_bounds
    omega
  have noFalse : word ≠ ['f', 'a', 'l', 's', 'e'] := noLetter (by decide) _
  rw [readWord?, if_neg (noLetter (by decide) _), if_neg (noLetter (by decide) _), if_neg noFalse,
    read]

end Funlet.Json
