import Funlet.Proofs.Token.Munch

/-!
# What a word depends on

Which word begins a text is settled by the word itself and by the two characters after it.  So the
text may be cut anywhere behind the word, and it may be changed behind those two characters, and the
same word is read.
-/

set_option autoImplicit false

namespace Funlet.Word

/-! ## Cutting a text -/

theorem IsLongest.within {shape : List Char → Prop} {text word other : List Char}
    (longest : IsLongest shape text word) (front : word <+: other) (inside : other <+: text) :
    IsLongest shape other word where
  front := front
  shaped := longest.shaped
  longest := fun _ begins shaped => longest.longest _ (begins.trans inside) shaped

/-- A word is also read if the text ends somewhere behind it. -/
theorem Munches.within {text word other : List Char} {kind : Kind}
    (munches : Munches text kind word) (front : word <+: other) (inside : other <+: text) :
    Munches other kind word := by
  cases munches with
  | identifier longest => exact .identifier (longest.within front inside)
  | number longest => exact .number (longest.within front inside)
  | mark noIdentifier noNumber longest known =>
    exact .mark (fun word begins => noIdentifier word (begins.trans inside))
      (fun word begins => noNumber word (begins.trans inside)) (longest.within front inside) known

/-! ## Changing a text -/

/-- A word of the shape that goes on with another one has a first step of one or two characters
after which it is of the shape, too. -/
def Gradual (shape : List Char → Prop) : Prop :=
  ∀ word more, shape word → shape (word ++ more) → more ≠ [] →
    ∃ step, step <+: more ∧ step ≠ [] ∧ step.length ≤ 2 ∧ shape (word ++ step)

theorem singleton_begins (c : Char) (rest : List Char) : [c] <+: c :: rest :=
  (List.prefix_cons_inj c).mpr List.nil_prefix

theorem gradual_isIdentifier : Gradual IsIdentifier := by
  intro word more isIdentifier whole filled
  obtain ⟨c, rest, rfl, start, inside⟩ := isIdentifier
  cases more with
  | nil => exact absurd rfl filled
  | cons d more =>
    obtain ⟨_, _, same, _, all⟩ := whole
    obtain ⟨rfl, rfl⟩ := List.cons.inj same
    have next : isNameChar d = true := all d (by simp)
    refine ⟨[d], singleton_begins d more, by simp, by simp, c, rest ++ [d], by simp, start, ?_⟩
    exact List.forall_mem_append.mpr ⟨inside, by simpa using next⟩

theorem isNumber_append_digit {word : List Char} (isNumber : IsNumber word) {d : Char}
    (digit : d.isDigit = true) : IsNumber (word ++ [d]) := by
  obtain ⟨before, after, rfl, filled, beforeDigits, afterDigits⟩ := isNumber
  have last : ∀ c ∈ [d], c.isDigit = true := by simpa using digit
  by_cases whole : after = []
  · refine ⟨before ++ [d], [], by simp [literalText, whole], by simp, ?_, by simp⟩
    exact List.forall_mem_append.mpr ⟨beforeDigits, last⟩
  · refine ⟨before, after ++ [d], by simp [literalText, whole], filled, beforeDigits, ?_⟩
    exact List.forall_mem_append.mpr ⟨afterDigits, last⟩

theorem exists_digits_before_point {before rest front after : List Char}
    (digits : ∀ c ∈ before, c.isDigit = true) (same : before ++ rest = front ++ '.' :: after) :
    ∃ middle, front = before ++ middle ∧ rest = middle ++ '.' :: after := by
  rcases List.append_eq_append_iff.mp same with ⟨middle, split, tail⟩ | ⟨middle, split, tail⟩
  · exact ⟨middle, split, tail⟩
  · cases middle with
    | nil => exact ⟨[], by simpa using split.symm, by simpa using tail.symm⟩
    | cons d middle =>
      obtain ⟨rfl, _⟩ := List.cons.inj tail
      exact absurd (digits '.' (by simp [split])) (by decide)

theorem isNumber_append_cases {word more : List Char} (isNumber : IsNumber word)
    (whole : IsNumber (word ++ more)) (filled : more ≠ []) :
    (∃ d rest, more = d :: rest ∧ d.isDigit = true) ∨
      ∃ d rest, more = '.' :: d :: rest ∧ d.isDigit = true ∧ ∀ c ∈ word, c.isDigit = true := by
  obtain ⟨before, after, rfl, _, beforeDigits, afterDigits⟩ := isNumber
  obtain ⟨front, fraction, same, _, frontDigits, fractionDigits⟩ := whole
  have ofDigits (digits : ∀ c ∈ more, c.isDigit = true) :
      ∃ d rest, more = d :: rest ∧ d.isDigit = true := by
    cases more with
    | nil => exact absurd rfl filled
    | cons d rest => exact ⟨d, rest, rfl, digits d (by simp)⟩
  by_cases noFraction : fraction = []
  · rw [literalText, literalText, if_pos noFraction, List.append_nil] at same
    exact .inl (ofDigits fun c member => frontDigits c (by rw [← same]; simp [member]))
  · rw [literalText, literalText, if_neg noFraction, List.append_assoc] at same
    obtain ⟨middle, rfl, tail⟩ := exists_digits_before_point beforeDigits same
    by_cases noAfter : after = []
    · rw [if_pos noAfter, List.nil_append] at tail
      cases middle with
      | nil =>
        obtain ⟨d, rest, rfl⟩ := List.exists_cons_of_ne_nil noFraction
        refine .inr ⟨d, rest, tail, fractionDigits d (by simp), ?_⟩
        simpa [literalText, noAfter] using beforeDigits
      | cons d middle => exact .inl ⟨d, _, tail, frontDigits d (by simp)⟩
    · rw [if_neg noAfter, List.cons_append] at tail
      cases middle with
      | nil =>
        obtain ⟨_, rfl⟩ := List.cons.inj tail
        exact .inl (ofDigits fun c member => fractionDigits c (by simp [member]))
      | cons d middle =>
        obtain ⟨rfl, _⟩ := List.cons.inj tail
        exact absurd (frontDigits '.' (by simp)) (by decide)

theorem gradual_isNumber : Gradual IsNumber := by
  intro word more isNumber whole filled
  rcases isNumber_append_cases isNumber whole filled with
    ⟨d, rest, rfl, digit⟩ | ⟨d, rest, rfl, digit, digits⟩
  · exact ⟨[d], singleton_begins d rest, by simp, by simp, isNumber_append_digit isNumber digit⟩
  · have wordFilled : word ≠ [] := by
      obtain ⟨before, after, rfl, filled, _⟩ := isNumber
      simp [literalText, filled]
    refine ⟨['.', d], (List.prefix_cons_inj '.').mpr (singleton_begins d rest), by simp, by simp,
      word, [d], by simp [literalText], wordFilled, digits, by simpa using digit⟩

theorem gradual_isMark : Gradual IsMark := by
  intro word more isMark whole filled
  refine ⟨more, List.prefix_refl more, filled, ?_, whole⟩
  obtain ⟨_, known⟩ := whole
  have short := length_of_mark? known
  rw [List.length_append] at short
  omega

theorem IsLongest.sameNext {shape : List Char → Prop} {word old new : List Char}
    (gradual : Gradual shape) (longest : IsLongest shape (word ++ old) word)
    (same : new.take 2 = old.take 2) : IsLongest shape (word ++ new) word where
  front := List.prefix_append word new
  shaped := longest.shaped
  longest := by
    intro other begins shaped
    by_contra longer
    obtain ⟨more, rfl⟩ : word <+: other :=
      List.prefix_of_prefix_length_le (List.prefix_append word new) begins (by omega)
    have filled : more ≠ [] := by
      rintro rfl
      simp at longer
    obtain ⟨step, front, stepFilled, short, stepShaped⟩ :=
      gradual word more longest.shaped shaped filled
    have ahead : step <+: new := front.trans ((List.prefix_append_right_inj word).mp begins)
    have kept : step <+: old := by
      have among := List.prefix_take_iff.mpr ⟨ahead, short⟩
      rw [same] at among
      exact among.trans (List.take_prefix 2 old)
    have bound := longest.longest (word ++ step) ((List.prefix_append_right_inj word).mpr kept)
      stepShaped
    have some_step := List.length_pos_iff.mpr stepFilled
    rw [List.length_append] at bound
    omega

/-- A word is also read if the text is changed behind the next two characters. -/
theorem Munches.sameNext {word old new : List Char} {kind : Kind}
    (munches : Munches (word ++ old) kind word) (same : new.take 2 = old.take 2) :
    Munches (word ++ new) kind word := by
  cases munches with
  | identifier longest => exact .identifier (longest.sameNext gradual_isIdentifier same)
  | number longest => exact .number (longest.sameNext gradual_isNumber same)
  | mark noIdentifier noNumber longest known =>
    cases word with
    | nil => simp [mark?] at known
    | cons c word =>
      have begins : [c] <+: c :: word ++ old := singleton_begins c (word ++ old)
      refine .mark (fun other front isIdentifier => ?_) (fun other front isNumber => ?_)
        (longest.sameNext gradual_isMark same) known
      · obtain ⟨d, rest, split, start⟩ := exists_isNameStart_of_prefix isIdentifier front
        obtain ⟨rfl, _⟩ := List.cons.inj split
        exact noIdentifier [c] begins ⟨c, [], rfl, start, by simp⟩
      · obtain ⟨d, rest, split, digit⟩ := exists_isDigit_of_prefix isNumber front
        obtain ⟨rfl, _⟩ := List.cons.inj split
        exact noNumber [c] begins ⟨[c], [], rfl, by simp, by simpa using digit, by simp⟩

/-! ## Texts that no word begins -/

theorem first?_eq_none_iff {text : List Char} :
    first? text = none ↔
      ∀ word, word <+: text → ¬ IsIdentifier word ∧ ¬ IsNumber word ∧ ¬ IsMark word := by
  constructor
  · intro none word front
    refine ⟨fun isIdentifier => ?_, fun isNumber => ?_, fun isMark => ?_⟩
    · obtain ⟨c, rest, rfl, start⟩ := exists_isNameStart_of_prefix isIdentifier front
      simp [first?, start] at none
    · obtain ⟨c, rest, rfl, digit⟩ := exists_isDigit_of_prefix isNumber front
      simp [first?, isNameStart_of_isDigit digit, digit] at none
    · obtain ⟨kind, other, found⟩ := exists_mark_of_isMark isMark front
      cases text with
      | nil => simp [mark, mark?] at found
      | cons c rest =>
        simp only [first?, found] at none
        split at none <;> [simp at none; split at none <;> simp at none]
  · intro absent
    cases found : first? text with
    | none => rfl
    | some word =>
      obtain ⟨kind, word⟩ := word
      have munches := munches_of_first? found
      have noWord := absent word munches.front
      cases munches with
      | identifier longest => exact absurd longest.shaped noWord.1
      | number longest => exact absurd longest.shaped noWord.2.1
      | mark _ _ longest _ => exact absurd longest.shaped noWord.2.2

theorem mark_sameNext {old new : List Char} (same : new.take 2 = old.take 2) :
    mark new = mark old := by
  have first : new.take 1 = old.take 1 := by
    have both := congrArg (List.take 1) same
    rwa [List.take_take, List.take_take] at both
  rw [mark, mark, same, first]

theorem first?_eq_none_sameNext {old new : List Char} (stuck : first? old = none)
    (same : new.take 2 = old.take 2) : first? new = none := by
  cases new with
  | nil => rfl
  | cons c rest =>
    cases old with
    | nil => simp at same
    | cons d others =>
      obtain ⟨rfl, _⟩ := List.cons.inj same
      simp only [first?, mark_sameNext same] at stuck ⊢
      split at stuck
      · simp at stuck
      · rename_i notStart
        rw [if_neg notStart]
        split at stuck
        · simp at stuck
        · rename_i notDigit
          rw [if_neg notDigit]
          exact stuck

end Funlet.Word
