import Funlet.Proofs.Number.Rounding

/-!
# Written numbers

An integer is written as a sign and digits without needless zeros in front.  The text of a finite
number of the binary64 format has a point with digits or an exponent or both besides, so it is never
taken for an integer.  Both are read back as the numbers that they were written for.
-/

set_option autoImplicit false

namespace Funlet

/-! ## Integers -/

theorem Digits.signed_eq (n : Int) :
    Digits.signed n =
      String.ofList (Numeral.signText (decide (n < 0)) ++ Digits.ofNat 10 n.natAbs) := by
  cases n with
  | ofNat n => rfl
  | negSucc n =>
    have negative : Int.negSucc n < 0 := Int.negSucc_lt_zero n
    rw [← String.toList_inj]
    simp [Digits.signed, Digits.decimal, Numeral.signText, negative, Int.natAbs_negSucc]

theorem Numeral.readInteger?_signed {n : Int}
    (short : n.natAbs < power 10 maxIntegerDigits) :
    readInteger? (Digits.signed n) = some n := by
  have isDigit : ∀ c ∈ Digits.ofNat 10 n.natAbs, c.isDigit = true :=
    fun _ => Digits.isDigit_of_mem_ofNat
  have numeral : ∀ c ∈ signText (decide (n < 0)) ++ Digits.ofNat 10 n.natAbs,
      IsNumeralChar c := by
    intro c member
    rcases List.mem_append.mp member with sign | digit
    · exact isNumeralChar_of_mem_signText sign
    · exact .inl (.inl (isDigit c digit))
  have all : (Digits.ofNat 10 n.natAbs).all Char.isDigit = true := List.all_eq_true.mpr isDigit
  have fits : (Digits.ofNat 10 n.natAbs).length ≤ maxIntegerDigits :=
    Digits.length_ofNat_le (by decide) short
  have filled := Digits.ofNat_ne_nil 10 n.natAbs
  have signed : signOf (signText (decide (n < 0)) ++ Digits.ofNat 10 n.natAbs) =
      (decide (n < 0), Digits.ofNat 10 n.natAbs) := by
    cases digits : Digits.ofNat 10 n.natAbs with
    | nil => exact absurd digits filled
    | cons c rest => exact signOf_signText _ (isDigit c (by simp [digits])) rest
  have value := Digits.value_ofNat n.natAbs
  rw [readInteger?, Digits.signed_eq, plain_of_numeral numeral, signed]
  simp only [withoutUnderscores_of_numeral fun c member => .inl (.inl (isDigit c member)), all,
    value, List.isEmpty_eq_false_iff.mpr filled, Nat.not_lt.mpr fits, decide_false, Bool.not_true,
    Bool.or_self, Bool.false_eq_true, if_false, decide_eq_true_eq]
  split
  · exact congrArg some (by omega)
  · exact congrArg some (by omega)

/-! ## Exponents -/

def exponentText : Option (Bool × List Char) → List Char
  | none => []
  | some (negative, digits) => 'e' :: (if negative then '-' else '+') :: digits

def exponentValue : Option (Bool × List Char) → Int
  | none => 0
  | some (negative, digits) => if negative then -Digits.value digits else Digits.value digits

/-- A decimal fraction as it is written.  It has a point or an exponent, so it is no integer. -/
structure Fraction where
  before : List Char
  after : List Char
  exponent : Option (Bool × List Char)
  beforeDigits : ∀ c ∈ before, c.isDigit = true
  afterDigits : ∀ c ∈ after, c.isDigit = true
  exponentDigits : ∀ negative digits, exponent = some (negative, digits) →
    digits ≠ [] ∧ ∀ c ∈ digits, c.isDigit = true
  /-- A zero in front is the only digit before the point. -/
  leading : before = ['0'] ∨ ∃ first rest, before = first :: rest ∧ first ≠ '0'
  broken : after ≠ [] ∨ exponent ≠ none

namespace Fraction

def text (f : Fraction) : List Char := literalText f.before f.after ++ exponentText f.exponent

def decimal (f : Fraction) : Decimal :=
  ⟨Digits.value (f.before ++ f.after), exponentValue f.exponent - f.after.length⟩

def Bounded (f : Fraction) : Prop :=
  (exponentValue f.exponent).natAbs ≤ (f.before ++ f.after).length + 400

variable (f : Fraction)

theorem before_ne_nil : f.before ≠ [] := by
  rcases f.leading with zero | ⟨first, rest, digits, _⟩
  · simp [zero]
  · simp [digits]

theorem isNumeralChar_of_mem_exponent {c : Char} (member : c ∈ exponentText f.exponent) :
    IsNumeralChar c := by
  cases given : f.exponent with
  | none => simp [given, exponentText] at member
  | some power =>
    obtain ⟨negative, digits⟩ := power
    rw [given, exponentText] at member
    rcases List.mem_cons.mp member with rfl | member
    · exact .inr (.inr (.inr rfl))
    · rcases List.mem_cons.mp member with sign | digit
      · cases negative with
        | true => exact .inr (.inl sign)
        | false => exact .inr (.inr (.inl sign))
      · exact .inl (.inl ((f.exponentDigits negative digits given).2 c digit))

theorem stops_exponent :
    ∀ c ∈ (exponentText f.exponent).head?, c.isDigit = false ∧ c ≠ '.' := by
  intro c head
  cases given : f.exponent with
  | none => simp [given, exponentText] at head
  | some power =>
    obtain rfl : 'e' = c := by simpa [given, exponentText] using head
    decide

theorem exponentOf?_text :
    Numeral.exponentOf? (exponentText f.exponent) = some (exponentValue f.exponent) := by
  cases given : f.exponent with
  | none => rfl
  | some power =>
    obtain ⟨negative, digits⟩ := power
    obtain ⟨filled, isDigit⟩ := f.exponentDigits negative digits given
    have all : digits.all Char.isDigit = true := List.all_eq_true.mpr isDigit
    cases negative <;> simp [exponentText, exponentValue, Numeral.exponentOf?, Numeral.signOf,
      filled, all]

theorem readReal?_text (bounded : f.Bounded) (negative : Bool) :
    Numeral.readReal? (String.ofList (Numeral.signText negative ++ f.text)) =
      some (.ofSize negative f.decimal.nearest) :=
  Numeral.readReal?_append f.beforeDigits f.afterDigits f.before_ne_nil negative
    (fun _ => f.isNumeralChar_of_mem_exponent)
    (Numeral.readFraction?_append f.beforeDigits f.afterDigits f.before_ne_nil f.stops_exponent
      f.exponentOf?_text bounded)

end Fraction

/-! ## Shapes of decimals -/

section Literal

variable {before after : List Char} (beforeDigits : ∀ c ∈ before, c.isDigit = true)

include beforeDigits

theorem point_mem_literalText_iff : '.' ∈ literalText before after ↔ after ≠ [] := by
  have noPoint : '.' ∉ before := fun member => absurd (beforeDigits '.' member) (by decide)
  by_cases empty : after = [] <;> simp [literalText, empty, noPoint]

theorem leading_of_literalText {text : List Char} (filled : before ≠ [])
    (shape : text = literalText before after)
    (front : (∃ rest, text = '0' :: '.' :: rest) ∨
      ∃ first rest, text = first :: rest ∧ first ≠ '0') :
    before = ['0'] ∨ ∃ first rest, before = first :: rest ∧ first ≠ '0' := by
  cases before with
  | nil => exact absurd rfl filled
  | cons first digits =>
    rcases front with ⟨rest, begins⟩ | ⟨other, rest, begins, nonzero⟩
    · rw [begins, literalText, List.cons_append, List.cons.injEq] at shape
      obtain ⟨rfl, shape⟩ := shape
      cases digits with
      | nil => exact .inl rfl
      | cons second more =>
        obtain rfl : '.' = second := (List.cons.inj shape).1
        exact absurd (beforeDigits '.' (by simp)) (by decide)
    · rw [begins, literalText, List.cons_append, List.cons.injEq] at shape
      exact .inr ⟨first, digits, rfl, shape.1 ▸ nonzero⟩

end Literal

namespace Decimal

variable {d : Decimal}

theorem exists_digits_eq_cons (positive : 0 < d.coefficient) :
    ∃ first rest, d.digits = first :: rest ∧ first ≠ '0' :=
  Digits.exists_ofNat_eq_cons positive

theorem positional_front (positive : 0 < d.coefficient) :
    (∃ rest, d.positional = '0' :: '.' :: rest) ∨
      ∃ first rest, d.positional = first :: rest ∧ first ≠ '0' := by
  obtain ⟨first, rest, digits, nonzero⟩ := exists_digits_eq_cons positive
  by_cases small : d.digits.length + d.exponent ≤ 0
  · exact .inl ⟨_, positional_of_small small⟩
  · by_cases whole : 0 ≤ d.exponent
    · rw [positional_of_whole whole, digits]
      exact .inr ⟨first, _, rfl, nonzero⟩
    · have places : 0 < (d.digits.length + d.exponent).toNat := by omega
      obtain ⟨more, count⟩ := Nat.exists_eq_add_one_of_ne_zero places.ne'
      rw [positional_of_point (by omega) (by omega), count, digits]
      exact .inr ⟨first, _, rfl, nonzero⟩

theorem point_mem_positional_iff : '.' ∈ d.positional ↔ d.exponent < 0 := by
  by_cases whole : 0 ≤ d.exponent
  · rw [positional_of_whole whole]
    have noPoint : '.' ∉ d.digits ++ List.replicate d.exponent.toNat '0' := by
      intro member
      rcases List.mem_append.mp member with digit | zero
      · exact absurd (isDigit_of_mem_digits digit) (by decide)
      · exact absurd (isDigit_of_mem_zeros zero) (by decide)
    exact ⟨fun member => absurd member noPoint, fun broken => by omega⟩
  · refine ⟨fun _ => by omega, fun broken => ?_⟩
    by_cases small : d.digits.length + d.exponent ≤ 0
    · rw [positional_of_small small]
      simp
    · rw [positional_of_point (by omega) broken]
      simp

theorem exists_fraction_positional (positive : 0 < d.coefficient) (broken : d.exponent < 0) :
    ∃ f : Fraction, d.positional = f.text ∧ f.Bounded ∧ f.decimal.value = d.value := by
  obtain ⟨before, after, shape, filled, beforeDigits, afterDigits, value⟩ :=
    d.spellsExactly_positional
  have point := point_mem_positional_iff.mpr broken
  rw [shape, point_mem_literalText_iff beforeDigits] at point
  have leading := leading_of_literalText beforeDigits filled shape (positional_front positive)
  refine ⟨⟨before, after, none, beforeDigits, afterDigits, by simp, leading, .inl point⟩,
    ?_, ?_, ?_⟩
  · simp [Fraction.text, exponentText, shape]
  · simp [Fraction.Bounded, exponentValue]
  · simpa [Fraction.decimal, exponentValue, literalDecimal] using value

theorem exists_fraction_whole (positive : 0 < d.coefficient) (whole : 0 ≤ d.exponent) :
    ∃ f : Fraction, d.positional ++ ['.', '0'] = f.text ∧ f.Bounded ∧
      f.decimal.value = d.value := by
  obtain ⟨before, after, shape, filled, beforeDigits, afterDigits, value⟩ :=
    d.spellsExactly_positional
  obtain rfl : after = [] := by
    by_contra filledAfter
    have point := (point_mem_literalText_iff beforeDigits).mpr filledAfter
    rw [← shape, point_mem_positional_iff] at point
    omega
  have leading := leading_of_literalText beforeDigits filled shape (positional_front positive)
  refine ⟨⟨before, ['0'], none, beforeDigits, by simp, by simp, leading, .inl (by simp)⟩,
    ?_, ?_, ?_⟩
  · simp [Fraction.text, exponentText, shape, literalText]
  · simp [Fraction.Bounded, exponentValue]
  · rw [← value]
    have shifted := value_shift (Digits.value before) (-1)
    simpa [Fraction.decimal, exponentValue, literalDecimal, Digits.value_append, Digits.value]
      using shifted

def powerDigits (n : Nat) : List Char :=
  List.replicate (2 - (Digits.ofNat 10 n).length) '0' ++ Digits.ofNat 10 n

theorem powerDigits_ne_nil (n : Nat) : powerDigits n ≠ [] := by
  simp [powerDigits, Digits.ofNat_ne_nil]

theorem isDigit_of_mem_powerDigits {n : Nat} {c : Char} (member : c ∈ powerDigits n) :
    c.isDigit = true := by
  rcases List.mem_append.mp member with zero | digit
  · exact isDigit_of_mem_zeros zero
  · exact Digits.isDigit_of_mem_ofNat digit

theorem exponentValue_powerDigits (exponent : Int) :
    exponentValue (some (decide (exponent < 0), powerDigits exponent.natAbs)) = exponent := by
  simp only [exponentValue, powerDigits, Digits.value_append, Digits.value_replicate_zero,
    Digits.value_ofNat, decide_eq_true_eq]
  split <;> omega

theorem scientific_eq {first : Char} {rest : List Char} (digits : d.digits = first :: rest) :
    d.scientific = literalText [first] rest ++
      exponentText (some (decide (d.digits.length + d.exponent - 1 < 0),
        powerDigits (d.digits.length + d.exponent - 1).natAbs)) := by
  have digitsIs : Digits.ofNat 10 d.coefficient = first :: rest := digits
  simp only [scientific, digitsAndPoint, digitsIs, digits, exponentText, powerDigits,
    decide_eq_true_eq]
  cases rest <;> simp [literalText]

/-- A decimal with an exponent is a fraction whose digits are those of the decimal. -/
theorem exists_fraction_scientific (positive : 0 < d.coefficient)
    (bounded : (d.digits.length + d.exponent - 1).natAbs ≤ d.digits.length + 400) :
    ∃ f : Fraction, d.scientific = f.text ∧ f.Bounded ∧ f.decimal = d := by
  obtain ⟨first, rest, digits, nonzero⟩ := exists_digits_eq_cons positive
  have isDigit : ∀ c ∈ first :: rest, c.isDigit = true := by
    intro c member
    rw [← digits] at member
    exact isDigit_of_mem_digits member
  have coefficient : Digits.value (first :: rest) = d.coefficient := by
    rw [← digits]
    exact Digits.value_ofNat d.coefficient
  have shape := scientific_eq digits
  have valueIs := exponentValue_powerDigits (d.digits.length + d.exponent - 1)
  have length : d.digits.length = rest.length + 1 := by rw [digits, List.length_cons]
  refine ⟨⟨[first], rest, _, by simp [isDigit first (by simp)],
    fun c member => isDigit c (by simp [member]), ?_, .inr ⟨first, [], rfl, nonzero⟩,
    .inr (Option.some_ne_none _)⟩, shape, ?_, ?_⟩
  · rintro negative word given
    obtain ⟨_, rfl⟩ := Prod.mk.inj (Option.some.inj given)
    exact ⟨powerDigits_ne_nil _, fun _ => isDigit_of_mem_powerDigits⟩
  · simp only [Fraction.Bounded, valueIs, List.singleton_append, List.length_cons]
    omega
  · obtain ⟨_, exponent⟩ := d
    simp only [Fraction.decimal, valueIs, List.singleton_append, coefficient, Decimal.mk.injEq,
      true_and]
    omega

end Decimal

/-- The text of a positive size is a fraction that denotes the shortest decimal of the size. -/
theorem Magnitude.exists_fraction_shortest {size : Magnitude} (positive : 0 < size.units) :
    ∃ f : Fraction, size.text = f.text ∧ f.Bounded ∧ f.decimal.value = size.shortest.value := by
  have rounded := size.nearest_shortest
  have filled := Decimal.coefficient_pos rounded positive
  have notLarge := Decimal.exponent_le rounded positive
  have notSmall := Decimal.le_exponent rounded positive
  have digits := size.shortest.digits_length_pos
  rw [text, if_neg positive.ne']
  simp only
  split_ifs with near whole
  · exact Decimal.exists_fraction_whole filled whole
  · exact Decimal.exists_fraction_positional filled (by omega)
  · obtain ⟨f, shape, bounded, same⟩ := Decimal.exists_fraction_scientific filled (by omega)
    exact ⟨f, shape, bounded, congrArg Decimal.value same⟩

/-- The text of a size is a fraction that is read back as the size. -/
theorem Magnitude.exists_fraction (size : Magnitude) :
    ∃ f : Fraction, size.text = f.text ∧ f.Bounded ∧ f.decimal.nearest = some size := by
  by_cases zero : size.units = 0
  · refine ⟨⟨['0'], ['0'], none, by simp, by simp, by simp, .inl rfl, .inl (by simp)⟩, ?_, ?_, ?_⟩
    · rw [text, if_pos zero]
      rfl
    · simp [Fraction.Bounded, exponentValue]
    · rw [← size.nearest_units, zero]
      apply nearest_congr (power_pos (by decide) _) (power_pos (by decide) _)
      simp [Fraction.decimal, Digits.value]
  · obtain ⟨f, shape, bounded, value⟩ := exists_fraction_shortest (Nat.pos_of_ne_zero zero)
    refine ⟨f, shape, bounded, ?_⟩
    rw [Decimal.nearest_of_value value, size.nearest_shortest]

/-- The text of a finite number is read back as the number. -/
theorem Binary64.readReal?_text {value : Binary64} (finite : value.isFinite = true) :
    Numeral.readReal? value.text = some value := by
  cases value with
  | infinite negative => simp [isFinite] at finite
  | nan => simp [isFinite] at finite
  | finite negative size =>
    obtain ⟨f, shape, bounded, rounded⟩ := size.exists_fraction
    rw [text, shape]
    refine (f.readReal?_text bounded negative).trans ?_
    rw [rounded]
    rfl

end Funlet
