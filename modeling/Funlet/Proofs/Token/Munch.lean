import Funlet.Proofs.Number.Literal
import Funlet.Token.Word

/-!
# The longest word

What may stand at the front of a text is told by three shapes of words: identifiers, numbers and
marks.  The word read there is the longest identifier or number that the text begins with, or, where
it begins with neither, the longest mark.
-/

set_option autoImplicit false

namespace Funlet.Word

/-! ## Shapes -/

/-- A letter or a low line, followed by letters, digits and low lines. -/
def IsIdentifier (word : List Char) : Prop :=
  ∃ c rest, word = c :: rest ∧ isNameStart c = true ∧ ∀ d ∈ rest, isNameChar d = true

/-- Digits, or digits with a point between them. -/
def IsNumber (word : List Char) : Prop :=
  ∃ before after, word = literalText before after ∧ before ≠ [] ∧
    (∀ c ∈ before, c.isDigit = true) ∧ ∀ c ∈ after, c.isDigit = true

def IsMark (word : List Char) : Prop :=
  ∃ kind, mark? word = some kind

structure IsLongest (shape : List Char → Prop) (text word : List Char) : Prop where
  front : word <+: text
  shaped : shape word
  longest : ∀ other, other <+: text → shape other → other.length ≤ word.length

inductive Munches (text : List Char) : Kind → List Char → Prop where
  | identifier {word : List Char} (longest : IsLongest IsIdentifier text word) :
      Munches text (nameKind word) word
  | number {word : List Char} (longest : IsLongest IsNumber text word) :
      Munches text .number word
  | mark {word : List Char} {kind : Kind}
      (noIdentifier : ∀ other, other <+: text → ¬ IsIdentifier other)
      (noNumber : ∀ other, other <+: text → ¬ IsNumber other)
      (longest : IsLongest IsMark text word) (known : mark? word = some kind) :
      Munches text kind word

theorem IsLongest.unique {shape : List Char → Prop} {text first second : List Char}
    (isFirst : IsLongest shape text first) (isSecond : IsLongest shape text second) :
    first = second := by
  have shorter := isSecond.longest first isFirst.front isFirst.shaped
  have longer := isFirst.longest second isSecond.front isSecond.shaped
  have front : first <+: second :=
    List.prefix_of_prefix_length_le isFirst.front isSecond.front shorter
  exact front.eq_of_length (by omega)

theorem prefix_takeWhile {p : Char → Bool} {front text : List Char} (begins : front <+: text)
    (inside : ∀ c ∈ front, p c = true) : front <+: text.takeWhile p := by
  obtain ⟨rest, rfl⟩ := begins
  rw [List.takeWhile_append_of_pos inside]
  exact List.prefix_append front _

/-! ## Identifiers -/

theorem isNameChar_of_isNameStart {c : Char} (start : isNameStart c = true) :
    isNameChar c = true := by
  simp only [isNameStart, Bool.or_eq_true] at start
  simp only [isNameChar, Char.isAlphanum, Bool.or_eq_true]
  exact start.imp_left .inl

theorem isLongest_name {c : Char} {rest : List Char} (start : isNameStart c = true) :
    IsLongest IsIdentifier (c :: rest) (name (c :: rest)) where
  front := List.takeWhile_prefix _
  shaped := by
    refine ⟨c, rest.takeWhile isNameChar, ?_, start, fun d member => List.mem_takeWhile_imp member⟩
    simp [name, isNameChar_of_isNameStart start]
  longest := by
    intro other front isIdentifier
    obtain ⟨d, more, rfl, start, inside⟩ := isIdentifier
    have all : ∀ e ∈ d :: more, isNameChar e = true :=
      List.forall_mem_cons.mpr ⟨isNameChar_of_isNameStart start, inside⟩
    exact (prefix_takeWhile front all).length_le

theorem exists_isNameStart_of_prefix {word text : List Char} (isIdentifier : IsIdentifier word)
    (front : word <+: text) : ∃ c rest, text = c :: rest ∧ isNameStart c = true := by
  obtain ⟨c, more, rfl, start, _⟩ := isIdentifier
  obtain ⟨rest, rfl⟩ := front
  exact ⟨c, more ++ rest, rfl, start⟩

/-! ## Numbers -/

theorem isNameStart_iff {c : Char} :
    isNameStart c = true ↔
      (65 ≤ c.toNat ∧ c.toNat ≤ 90) ∨ (97 ≤ c.toNat ∧ c.toNat ≤ 122) ∨ c = '_' := by
  have upper : c.isUpper = true ↔ 65 ≤ c.toNat ∧ c.toNat ≤ 90 :=
    decide_eq_true_iff.trans (and_congr UInt32.le_iff_toNat_le UInt32.le_iff_toNat_le)
  have lower : c.isLower = true ↔ 97 ≤ c.toNat ∧ c.toNat ≤ 122 :=
    Bool.and_eq_true_iff.trans (and_congr (decide_eq_true_iff.trans UInt32.le_iff_toNat_le)
      (decide_eq_true_iff.trans UInt32.le_iff_toNat_le))
  have letter : c.isAlpha = (c.isUpper || c.isLower) := rfl
  rw [isNameStart, letter, Bool.or_eq_true, Bool.or_eq_true, upper, lower, beq_iff_eq, or_assoc]

theorem isNameStart_of_isDigit {c : Char} (digit : c.isDigit = true) : isNameStart c = false := by
  have bounds := Digits.isDigit_iff.mp digit
  rw [← Bool.not_eq_true, isNameStart_iff]
  rintro (upper | lower | rfl)
  · omega
  · omega
  · exact absurd bounds.2 (by decide)

theorem number_prefix (text : List Char) : number text <+: text := by
  have whole := List.takeWhile_append_dropWhile (p := Char.isDigit) (l := text)
  unfold number
  split
  · rename_i rest point
    have fraction : (if rest.takeWhile Char.isDigit = [] then []
        else '.' :: rest.takeWhile Char.isDigit) <+: '.' :: rest := by
      by_cases none : rest.takeWhile Char.isDigit = []
      · rw [if_pos none]
        exact List.nil_prefix
      · rw [if_neg none]
        exact (List.prefix_cons_inj '.').mpr (List.takeWhile_prefix _)
    have front := (List.prefix_append_right_inj (text.takeWhile Char.isDigit)).mpr fraction
    rwa [← point, whole] at front
  · rw [List.append_nil]
    exact List.takeWhile_prefix _

theorem isNumber_number {c : Char} {rest : List Char} (digit : c.isDigit = true) :
    IsNumber (number (c :: rest)) := by
  have digits (text : List Char) : ∀ d ∈ text.takeWhile Char.isDigit, d.isDigit = true :=
    fun d member => List.mem_takeWhile_imp member
  have filled : (c :: rest).takeWhile Char.isDigit ≠ [] := by simp [digit]
  unfold number
  split
  · rename_i more _
    exact ⟨_, more.takeWhile Char.isDigit, rfl, filled, digits _, digits _⟩
  · exact ⟨_, [], rfl, filled, digits _, by simp⟩

theorem prefix_number {word text : List Char} (isNumber : IsNumber word) (front : word <+: text) :
    word <+: number text := by
  obtain ⟨before, after, rfl, _, beforeDigits, afterDigits⟩ := isNumber
  by_cases whole : after = []
  · subst whole
    simp only [literalText, if_true, List.append_nil] at front ⊢
    exact (prefix_takeWhile front beforeDigits).trans (List.prefix_append _ _)
  · obtain ⟨rest, rfl⟩ := front
    have point : ('.' : Char).isDigit ≠ true := by decide
    have more : (after ++ rest).takeWhile Char.isDigit ≠ [] := by
      rw [List.takeWhile_append_of_pos afterDigits]
      simp [whole]
    rw [number, literalText, if_neg whole, List.append_assoc, List.cons_append,
      List.takeWhile_append_of_pos beforeDigits, List.dropWhile_append_of_pos beforeDigits,
      List.takeWhile_cons_of_neg point, List.dropWhile_cons_of_neg point, List.append_nil]
    simp only [if_neg more]
    rw [List.takeWhile_append_of_pos afterDigits]
    exact (List.prefix_append_right_inj before).mpr
      ((List.prefix_cons_inj '.').mpr (List.prefix_append after _))

theorem isLongest_number {c : Char} {rest : List Char} (digit : c.isDigit = true) :
    IsLongest IsNumber (c :: rest) (number (c :: rest)) where
  front := number_prefix _
  shaped := isNumber_number digit
  longest := fun _ front isNumber => (prefix_number isNumber front).length_le

theorem exists_isDigit_of_prefix {word text : List Char} (isNumber : IsNumber word)
    (front : word <+: text) : ∃ c rest, text = c :: rest ∧ c.isDigit = true := by
  obtain ⟨before, after, rfl, filled, digits, _⟩ := isNumber
  obtain ⟨rest, rfl⟩ := front
  cases before with
  | nil => exact absurd rfl filled
  | cons c more => exact ⟨c, _, rfl, digits c (by simp)⟩

/-! ## Marks -/

theorem length_of_mark? {word : List Char} {kind : Kind} (known : mark? word = some kind) :
    word.length = 1 ∨ word.length = 2 := by
  unfold mark? at known
  split at known <;> simp at known ⊢

theorem isLongest_mark {text word : List Char} {kind : Kind}
    (found : mark text = some (kind, word)) :
    IsLongest IsMark text word ∧ mark? word = some kind := by
  unfold mark at found
  cases two : mark? (text.take 2) with
  | some known =>
    rw [two] at found
    obtain ⟨rfl, rfl⟩ := Prod.mk.inj (Option.some.inj found)
    refine ⟨⟨List.take_prefix 2 text, ⟨known, two⟩, ?_⟩, two⟩
    intro other front ⟨_, otherKnown⟩
    have short := length_of_mark? otherKnown
    have within := front.length_le
    rw [List.length_take]
    omega
  | none =>
    rw [two] at found
    cases one : mark? (text.take 1) with
    | none => simp [one] at found
    | some known =>
      simp only [one] at found
      obtain ⟨rfl, rfl⟩ := Prod.mk.inj (Option.some.inj found)
      refine ⟨⟨List.take_prefix 1 text, ⟨known, one⟩, ?_⟩, one⟩
      intro other front ⟨_, otherKnown⟩
      have notTwo : other.length ≠ 2 := by
        intro length
        have same := List.prefix_iff_eq_take.mp front
        rw [length] at same
        rw [same, two] at otherKnown
        simp at otherKnown
      have short := length_of_mark? otherKnown
      have filled := length_of_mark? one
      omega

theorem exists_mark_of_isMark {word text : List Char} (isMark : IsMark word)
    (front : word <+: text) : ∃ kind other, mark text = some (kind, other) := by
  obtain ⟨kind, known⟩ := isMark
  have same := List.prefix_iff_eq_take.mp front
  unfold mark
  cases two : mark? (text.take 2) with
  | some kind => exact ⟨kind, _, rfl⟩
  | none =>
    rcases length_of_mark? known with length | length
    · rw [length] at same
      rw [same] at known
      exact ⟨kind, text.take 1, by rw [known]⟩
    · rw [length] at same
      rw [same, two] at known
      simp at known

/-! ## The word that is read -/

theorem munches_of_first? {text word : List Char} {kind : Kind}
    (found : first? text = some (kind, word)) : Munches text kind word := by
  cases text with
  | nil => simp [first?] at found
  | cons c rest =>
    by_cases start : isNameStart c = true
    · simp only [first?, start, if_true] at found
      obtain ⟨rfl, rfl⟩ := Prod.mk.inj (Option.some.inj found)
      exact .identifier (isLongest_name start)
    · by_cases digit : c.isDigit = true
      · simp only [first?, start, digit, Bool.false_eq_true, if_false, if_true] at found
        obtain ⟨rfl, rfl⟩ := Prod.mk.inj (Option.some.inj found)
        exact .number (isLongest_number digit)
      · simp only [first?, start, digit, Bool.false_eq_true, if_false] at found
        obtain ⟨longest, known⟩ := isLongest_mark found
        refine .mark ?_ ?_ longest known
        · intro other front isIdentifier
          obtain ⟨d, more, same, starts⟩ := exists_isNameStart_of_prefix isIdentifier front
          obtain ⟨rfl, _⟩ := List.cons.inj same
          exact start starts
        · intro other front isNumber
          obtain ⟨d, more, same, isDigit⟩ := exists_isDigit_of_prefix isNumber front
          obtain ⟨rfl, _⟩ := List.cons.inj same
          exact digit isDigit

theorem first?_of_munches {text word : List Char} {kind : Kind}
    (munches : Munches text kind word) : first? text = some (kind, word) := by
  cases munches with
  | identifier longest =>
    obtain ⟨c, rest, rfl, start⟩ := exists_isNameStart_of_prefix longest.shaped longest.front
    obtain rfl := longest.unique (isLongest_name start)
    simp only [first?, start, if_true]
  | number longest =>
    obtain ⟨c, rest, rfl, digit⟩ := exists_isDigit_of_prefix longest.shaped longest.front
    obtain rfl := longest.unique (isLongest_number digit)
    simp only [first?, isNameStart_of_isDigit digit, digit, Bool.false_eq_true, if_false, if_true]
  | mark noIdentifier noNumber longest known =>
    obtain ⟨otherKind, other, found⟩ := exists_mark_of_isMark longest.shaped longest.front
    obtain ⟨otherLongest, otherKnown⟩ := isLongest_mark found
    obtain rfl := longest.unique otherLongest
    obtain rfl := Option.some.inj (known.symm.trans otherKnown)
    cases text with
    | nil => simp [mark, mark?] at found
    | cons c rest =>
      have begins : [c] <+: c :: rest := (List.prefix_cons_inj c).mpr List.nil_prefix
      have notStart : isNameStart c = false := by
        rw [← Bool.not_eq_true]
        intro start
        exact noIdentifier [c] begins ⟨c, [], rfl, start, by simp⟩
      have notDigit : c.isDigit = false := by
        rw [← Bool.not_eq_true]
        intro digit
        exact noNumber [c] begins ⟨[c], [], rfl, by simp, by simp [digit], by simp⟩
      simp only [first?, notStart, notDigit, Bool.false_eq_true, if_false, found]

theorem Munches.front {text word : List Char} {kind : Kind} (munches : Munches text kind word) :
    word <+: text := by
  cases munches with
  | identifier longest => exact longest.front
  | number longest => exact longest.front
  | mark _ _ longest _ => exact longest.front

end Funlet.Word
