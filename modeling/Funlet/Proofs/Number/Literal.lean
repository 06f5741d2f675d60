import Funlet.Number.Numeral
import Funlet.Proofs.Number.Digits
import Mathlib.Data.List.TakeWhile

/-!
# Reading literals

A literal is digits, or digits with a point between them.  It has none of the freedoms that a
numeral may have, and so it is read as the decimal that it spells, rounded.  The same holds with a
sign before it and an exponent behind it.
-/

set_option autoImplicit false

namespace Funlet

section Front

variable {α : Type} {p : α → Bool} {front rest : List α} (holds : ∀ c ∈ front, p c = true)
  (stops : ∀ c ∈ rest.head?, p c = false)

include holds stops

theorem takeWhile_append_of_stops : (front ++ rest).takeWhile p = front := by
  rw [List.takeWhile_append_of_pos holds]
  cases rest with
  | nil => simp
  | cons c more => simp [stops c rfl]

theorem dropWhile_append_of_stops : (front ++ rest).dropWhile p = rest := by
  rw [List.dropWhile_append_of_pos holds]
  cases rest with
  | nil => simp
  | cons c more => simp [stops c rfl]

end Front

/-- The digits of a literal before and after its point, which is left out where no digit follows
it. -/
def literalText (before after : List Char) : List Char :=
  before ++ if after = [] then [] else '.' :: after

def literalDecimal (before after : List Char) : Decimal :=
  ⟨Digits.value (before ++ after), -(after.length : Int)⟩

def IsLiteralChar (c : Char) : Prop := c.isDigit = true ∨ c = '.'

theorem IsLiteralChar.toNat_bounds {c : Char} (literal : IsLiteralChar c) :
    46 ≤ c.toNat ∧ c.toNat ≤ 57 := by
  rcases literal with digit | rfl
  · have := Digits.isDigit_iff.mp digit
    omega
  · decide

theorem isLiteralChar_of_mem {before after : List Char}
    (beforeDigits : ∀ c ∈ before, c.isDigit = true) (afterDigits : ∀ c ∈ after, c.isDigit = true)
    {c : Char} (member : c ∈ literalText before after) : IsLiteralChar c := by
  simp only [literalText, List.mem_append] at member
  rcases member with before | after
  · exact .inl (beforeDigits c before)
  · split at after
    · simp at after
    · rcases List.mem_cons.mp after with point | digit
      · exact .inr point
      · exact .inl (afterDigits c digit)

def IsNumeralChar (c : Char) : Prop := IsLiteralChar c ∨ c = '-' ∨ c = '+' ∨ c = 'e'

namespace IsNumeralChar

variable {c : Char}

theorem toNat_bounds (numeral : IsNumeralChar c) : 43 ≤ c.toNat ∧ c.toNat ≤ 101 := by
  rcases numeral with literal | rfl | rfl | rfl
  · have := literal.toNat_bounds
    omega
  · decide
  · decide
  · decide

theorem plainChar (numeral : IsNumeralChar c) : Numeral.plainChar c = c := by
  have := numeral.toNat_bounds
  simp only [Numeral.plainChar]
  rw [if_pos (by omega)]

theorem isEndBlank (numeral : IsNumeralChar c) : Numeral.isEndBlank c = false := by
  have bounds := numeral.toNat_bounds
  have notSpace : c ≠ ' ' := by
    rintro rfl
    exact absurd bounds.1 (by decide)
  simp only [Numeral.isEndBlank, Bool.or_eq_false_iff, beq_eq_false_iff_ne, ne_eq, notSpace,
    not_false_eq_true, Bool.and_eq_false_iff, decide_eq_false_iff_not, true_and]
  omega

theorem ne_underscore (numeral : IsNumeralChar c) : c ≠ '_' := by
  rcases numeral with literal | rfl | rfl | rfl
  · rintro rfl
    exact absurd literal.toNat_bounds.2 (by decide)
  · decide
  · decide
  · decide

end IsNumeralChar

namespace Numeral

section Text

variable {text : List Char} (numeral : ∀ c ∈ text, IsNumeralChar c)

include numeral

theorem plain_of_numeral : plain (String.ofList text) = text := by
  have same : text.map plainChar = text := by
    rw [List.map_congr_left fun c member => (numeral c member).plainChar, List.map_id']
  have front : text.dropWhile isEndBlank = text := by
    cases text with
    | nil => rfl
    | cons c rest => simp [(numeral c (by simp)).isEndBlank]
  have back : text.reverse.dropWhile isEndBlank = text.reverse := by
    cases reversed : text.reverse with
    | nil => rfl
    | cons c rest =>
      have member : c ∈ text := List.mem_reverse.mp (reversed ▸ List.mem_cons_self)
      simp [(numeral c member).isEndBlank]
  simp [plain, same, Text.trimmed, front, back]

theorem withoutUnderscores_of_numeral (afterDigit : Bool) :
    withoutUnderscores afterDigit text = some text := by
  induction text generalizing afterDigit with
  | nil => rfl
  | cons c rest ih =>
    have plain := (numeral c (by simp)).ne_underscore
    rw [withoutUnderscores.eq_4 _ _ _ (fun _ _ underscore _ => plain underscore)
      (fun underscore _ => plain underscore), ih (fun c member => numeral c (by simp [member]))]
    rfl

end Text

theorem signOf_of_digit {c : Char} (digit : c.isDigit = true) (rest : List Char) :
    signOf (c :: rest) = (false, c :: rest) := by
  unfold signOf
  split <;> simp_all

theorem readName?_of_digit {c : Char} (digit : c.isDigit = true) (rest : List Char) :
    readName? (c :: rest) = none := by
  have bounds := Digits.isDigit_iff.mp digit
  have lower : c.toLower = c := by
    have notUpper : ¬ (c.val ≥ 'A'.val ∧ c.val ≤ 'Z'.val) := by
      rintro ⟨upper, _⟩
      have : 65 ≤ c.toNat := UInt32.le_iff_toNat_le.mp upper
      omega
    exact dif_neg notUpper
  have differs (first : Char) (name : List Char) (letter : 57 < first.toNat) :
      String.ofList ((c :: rest).map Char.toLower) ≠ String.ofList (first :: name) := by
    intro same
    have heads := congrArg String.toList same
    simp only [String.toList_ofList, List.map_cons, lower, List.cons.injEq] at heads
    rw [heads.1] at bounds
    omega
  have notInf := differs 'i' ['n', 'f'] (by decide)
  have notInfinity := differs 'i' ['n', 'f', 'i', 'n', 'i', 't', 'y'] (by decide)
  have notNan := differs 'n' ['a', 'n'] (by decide)
  simp only [readName?]
  rw [if_neg (by rintro (inf | infinity); exacts [notInf inf, notInfinity infinity]),
    if_neg (fun nan => notNan nan)]

def signText (negative : Bool) : List Char := if negative then ['-'] else []

theorem isNumeralChar_of_mem_signText {negative : Bool} {c : Char}
    (member : c ∈ signText negative) : IsNumeralChar c := by
  cases negative with
  | true => exact .inr (.inl (List.mem_singleton.mp member))
  | false => simp [signText] at member

theorem signOf_signText (negative : Bool) {c : Char} (digit : c.isDigit = true)
    (rest : List Char) : signOf (signText negative ++ c :: rest) = (negative, c :: rest) := by
  cases negative with
  | true => rfl
  | false => exact signOf_of_digit digit rest

section Fraction

variable {before after : List Char} (beforeDigits : ∀ c ∈ before, c.isDigit = true)
  (afterDigits : ∀ c ∈ after, c.isDigit = true)

include beforeDigits afterDigits

theorem splitFraction_append {rest : List Char}
    (stops : ∀ c ∈ rest.head?, c.isDigit = false ∧ c ≠ '.') :
    splitFraction (literalText before after ++ rest) = (before, after, rest) := by
  have stopsDigits : ∀ c ∈ rest.head?, c.isDigit = false := fun c head => (stops c head).1
  unfold splitFraction literalText
  cases after with
  | nil =>
    simp only [if_true, List.append_nil, takeWhile_append_of_stops beforeDigits stopsDigits,
      dropWhile_append_of_stops beforeDigits stopsDigits]
    split
    · exact absurd rfl (stops '.' rfl).2
    · rfl
  | cons c more =>
    have taken := takeWhile_append_of_stops afterDigits stopsDigits
    have dropped := dropWhile_append_of_stops afterDigits stopsDigits
    rw [List.cons_append] at taken dropped
    have point : ∀ d ∈ ('.' :: c :: more ++ rest).head?, d.isDigit = false := by
      intro d head
      obtain rfl : '.' = d := Option.some.inj head
      decide
    simp only [List.cons_ne_nil, if_false, List.append_assoc]
    rw [takeWhile_append_of_stops beforeDigits point, dropWhile_append_of_stops beforeDigits point]
    simp only [List.cons_append, taken, dropped]

theorem readFraction?_append (filled : before ≠ []) {rest : List Char} {exponent : Int}
    (stops : ∀ c ∈ rest.head?, c.isDigit = false ∧ c ≠ '.')
    (readExponent : exponentOf? rest = some exponent)
    (bounded : exponent.natAbs ≤ (before ++ after).length + 400) :
    readFraction? (literalText before after ++ rest) =
      some ⟨Digits.value (before ++ after), exponent - after.length⟩ := by
  simp only [readFraction?, splitFraction_append beforeDigits afterDigits stops, readExponent]
  rw [if_neg (by simp [filled])]
  simp only [Option.some.injEq, Decimal.mk.injEq, true_and]
  omega

theorem isNumeralChar_of_mem_append (negative : Bool) {rest : List Char}
    (restNumeral : ∀ c ∈ rest, IsNumeralChar c) :
    ∀ c ∈ signText negative ++ (literalText before after ++ rest), IsNumeralChar c := by
  intro c member
  rcases List.mem_append.mp member with sign | body
  · exact isNumeralChar_of_mem_signText sign
  · rcases List.mem_append.mp body with literal | more
    · exact .inl (isLiteralChar_of_mem beforeDigits afterDigits literal)
    · exact restNumeral c more

theorem readReal?_append (filled : before ≠ []) (negative : Bool) {rest : List Char}
    {decimal : Decimal} (restNumeral : ∀ c ∈ rest, IsNumeralChar c)
    (fraction : readFraction? (literalText before after ++ rest) = some decimal) :
    readReal? (String.ofList (signText negative ++ (literalText before after ++ rest))) =
      some (.ofSize negative decimal.nearest) := by
  have numeral := isNumeralChar_of_mem_append beforeDigits afterDigits negative restNumeral
  simp only [readReal?, plain_of_numeral numeral, withoutUnderscores_of_numeral numeral]
  cases before with
  | nil => exact absurd rfl filled
  | cons c more =>
    have digit : c.isDigit = true := beforeDigits c (by simp)
    have front : literalText (c :: more) after ++ rest =
        c :: (literalText more after ++ rest) := rfl
    rw [front] at fraction ⊢
    simp only [signOf_signText negative digit, readName?_of_digit digit, fraction]

theorem readReal?_signed (filled : before ≠ []) (negative : Bool) :
    readReal? (String.ofList (signText negative ++ literalText before after)) =
      some (.ofSize negative (literalDecimal before after).nearest) := by
  have fraction : readFraction? (literalText before after ++ []) =
      some ⟨Digits.value (before ++ after), 0 - after.length⟩ :=
    readFraction?_append beforeDigits afterDigits filled (by simp) rfl (by simp)
  have read := readReal?_append beforeDigits afterDigits filled negative (by simp) fraction
  rw [Int.zero_sub, List.append_nil] at read
  exact read

theorem readReal?_literal (filled : before ≠ []) :
    readReal? (String.ofList (literalText before after)) =
      some (.ofSize false (literalDecimal before after).nearest) :=
  readReal?_signed beforeDigits afterDigits filled false

end Fraction

end Numeral

end Funlet
