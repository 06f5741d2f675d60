import Funlet.Proofs.Number.Numerals
import Funlet.Proofs.Source.RoundTrip

/-!
# Names and numbers as single words

A name is written as it is, and a text is a name if and only if it is read as a single one.  The
literal of a number is read as a single number, too.  It denotes a whole number exactly, though the
text of the number may be rounded; of any other number it denotes what the text does, which has an
exponent if the number is small.
-/

set_option autoImplicit false

namespace Funlet

open Grammar

theorem tokenize_of_first? {word : String} {kind : Kind}
    (found : ∀ rest, EndsWord rest → Word.first? (word.toList ++ rest) = some (kind, word.toList)) :
    tokenize word = .ok [⟨kind, word, .start⟩] := by
  have reads : Cursor.Reads .start word.toList [⟨kind, String.ofList word.toList, .start⟩] :=
    Cursor.reads_word found
  rw [String.ofList_toList] at reads
  exact reads.tokenize_eq

/-! ## Names -/

theorem tokenize_eq_name_iff {text : String} :
    tokenize text = .ok [⟨.name, text, .start⟩] ↔ Word.isName text.toList = true := by
  constructor
  · intro lexed
    exact (isWord_of_tokenize lexed _ List.mem_cons_self).isName rfl
  · intro isName
    exact tokenize_of_first? fun _ ends => Word.first?_name ends isName

theorem writtenName_eq_error_iff {text : String} :
    writtenName text = .error (.notName text) ↔ ¬ Word.isName text.toList = true := by
  unfold writtenName
  split <;> simp_all

/-- A name is written if and only if it is read as that name alone, and every other text is
refused. -/
theorem writtenName_iff_single_word (name : String) :
    (writtenName name = .ok name ↔ tokenize name = .ok [⟨.name, name, .start⟩]) ∧
    (writtenName name = .error (.notName name) ↔
      tokenize name ≠ .ok [⟨.name, name, .start⟩]) ∧
    (ReportError.source (.notName name)).kind = "ValueError" := by
  refine ⟨?_, ?_, rfl⟩
  · rw [Expr.writtenName_eq_ok_iff, tokenize_eq_name_iff, and_iff_left rfl]
  · rw [writtenName_eq_error_iff, Ne, tokenize_eq_name_iff]

/-! ## Numbers -/

theorem Expr.ofText_of_within {tree : Expr} {text : String} (written : tree.source = .ok text)
    (nested : tree.nesting ≤ maxNesting) (short : tree.height ≤ Expr.maxHeight) (strict : Bool) :
    Program.ofText strict text = .ok tree.unsigned := by
  obtain ⟨phrase, lexed, greedy, sameTree, sameLevels, finite⟩ :=
    Expr.exists_phrase_of_source written
  rw [← sameLevels] at nested
  rw [← Expr.height_unsigned, ← sameTree] at short
  rw [← sameTree]
  exact Program.ofText_of_ok lexed (Program.ofTokens_of_fits greedy ⟨nested, short, finite⟩)

namespace Binary64

def signed (negative : Bool) (value : ℚ) : ℚ := if negative then -value else value

/-- What the literal of a finite number has to denote: a whole number itself, and of any other
number what its text denotes. -/
inductive Denotes : Binary64 → ℚ → Prop
  | whole (negative : Bool) {size : Magnitude} (isWhole : size.isWhole = true) :
    Denotes (.finite negative size) (signed negative size.value)
  | broken (negative : Bool) {size : Magnitude} (isBroken : ¬ size.isWhole = true) (f : Fraction)
    (shape : (finite negative size).text = String.ofList (Numeral.signText negative ++ f.text)) :
    Denotes (.finite negative size) (signed negative f.decimal.value)

/-- A text is a literal of a number: a single word of the language, digits with perhaps a point and
digits behind them, which is read as an equal number wherever the number stands in a tree. -/
structure LiteralIs (x : Binary64) (text : String) : Prop where
  single : tokenize text = .ok [⟨.number, text, .start⟩]
  denotes : ∃ before after, text = String.ofList (literalText before after) ∧ before ≠ [] ∧
    (∀ c ∈ before, c.isDigit = true) ∧ (∀ c ∈ after, c.isDigit = true) ∧
    x.Denotes (literalDecimal before after).value
  bare : ∀ required, required ≤ Level.atom → (Expr.number x).sourceAt required = .ok text
  readsBack : ∀ strict, Program.ofText strict text = .ok (.number x.unsigned)
  same : x.same x.unsigned = true

theorem denotes_written {negative : Bool} {size : Magnitude}
    (writable : (finite negative size).Writable) :
    (finite negative size).Denotes size.written.value := by
  by_cases isWhole : size.isWhole = true
  · have settled : signed negative size.value = size.written.value := by
      rw [Magnitude.value_written isWhole]
      cases negative with
      | false => rfl
      | true =>
        have zero : size.value = 0 := by
          rw [Magnitude.value, writable rfl, Nat.cast_zero, zero_div]
        rw [zero, signed, if_pos rfl, neg_zero]
    rw [← settled]
    exact .whole negative isWhole
  · -- A number that is not whole is not zero, so it has no sign.
    have positive : 0 < size.units := by
      rw [Nat.pos_iff_ne_zero]
      intro zero
      exact isWhole (by simp [Magnitude.isWhole, zero])
    obtain rfl : negative = false := by
      cases negative with
      | false => rfl
      | true => exact absurd (writable rfl) positive.ne'
    obtain ⟨f, shape, _, value⟩ := Magnitude.exists_fraction_shortest positive
    rw [Magnitude.written, if_neg isWhole, ← value]
    refine .broken false isWhole f ?_
    rw [text, shape]
    rfl

/-- What is printed for a number is a literal of it. -/
theorem literalIs_of_literal? {x : Binary64} {text : String} (printed : x.literal? = some text) :
    x.LiteralIs text := by
  have writable : x.Writable := exists_literal_iff.mp ⟨text, printed⟩
  have bare (required : Nat) (atMost : required ≤ Level.atom) :
      (Expr.number x).sourceAt required = .ok text := by
    rw [Expr.sourceAt_number_eq_ok_iff]
    exact ⟨text, printed, if_neg (by omega)⟩
  have readsBack (strict : Bool) : Program.ofText strict text = .ok (.number x.unsigned) :=
    Expr.ofText_of_within (bare Level.expression (Nat.zero_le _)) (Nat.le_of_ble_eq_true rfl)
      (Nat.le_of_ble_eq_true rfl) strict
  obtain ⟨negative, size, rfl, rfl⟩ := exists_positional printed
  obtain ⟨before, after, shape, filled, beforeDigits, afterDigits, value⟩ :=
    size.written.spellsExactly_positional
  rw [shape] at bare readsBack ⊢
  exact {
    single := tokenize_of_first? fun _ ends => by
      rw [String.toList_ofList]
      exact Word.first?_literal ends filled beforeDigits afterDigits
    denotes := ⟨before, after, rfl, filled, beforeDigits, afterDigits,
      value ▸ denotes_written writable⟩
    bare := bare
    readsBack := readsBack
    same := same_unsigned writable }

/-- A literal is printed for the numbers that are finite and not negative, and every other number is
refused. -/
theorem literal_isExact (x : Binary64) :
    ((∃ text, (Numeral.real x).literal = .ok text ∧ x.LiteralIs text) ↔ x.Writable) ∧
    ((Numeral.real x).literal = .error (.noLiteral (.real x)) ↔ ¬ x.Writable) ∧
    (ReportError.source (.number (.noLiteral (.real x)))).kind = "ValueError" := by
  rw [← exists_literal_iff]
  cases printed : x.literal? with
  | none => simp [Numeral.literal, Numeral.toReal?, printed, ReportError.kind]
  | some text =>
    have isLiteral := literalIs_of_literal? printed
    simp [Numeral.literal, Numeral.toReal?, printed, ReportError.kind, isLiteral]

end Binary64

end Funlet
