import Funlet.Proofs.Token.Words

/-!
# Reading written words

A text made of words with a space between any two is read as these words.  No space is needed inside
parentheses.  A text is considered together with what lies before and after it, so that what is read
from a longer text follows from what is read from its parts.
-/

set_option autoImplicit false

namespace Funlet

/-- The characters that are written after a word: none, a space or a closing parenthesis. -/
def EndsWord : List Char → Prop
  | [] => True
  | c :: _ => c = ' ' ∨ c = ')'

namespace Word

theorem takeWhile_of_endsWord {p : Char → Bool} {rest : List Char} (ends : EndsWord rest)
    (space : p ' ' = false) (paren : p ')' = false) : rest.takeWhile p = [] := by
  cases rest with
  | nil => rfl
  | cons c rest =>
    rcases ends with rfl | rfl
    · simp [space]
    · simp [paren]

theorem dropWhile_of_endsWord {p : Char → Bool} {rest : List Char} (ends : EndsWord rest)
    (space : p ' ' = false) (paren : p ')' = false) : rest.dropWhile p = rest := by
  cases rest with
  | nil => rfl
  | cons c rest =>
    rcases ends with rfl | rfl
    · simp [space]
    · simp [paren]

theorem first?_leftParen (rest : List Char) :
    first? (['('] ++ rest) = some (.leftParen, ['(']) := by
  cases rest with
  | nil => rfl
  | cons c rest => simp [first?, isNameStart, mark, mark?]

section Ends

variable {rest : List Char} (ends : EndsWord rest)

include ends

theorem first?_letters {c : Char} {more : List Char} (start : isNameStart c = true)
    (inside : (c :: more).all isNameChar = true) :
    first? (c :: more ++ rest) = some (nameKind (c :: more), c :: more) := by
  have whole : name (c :: more ++ rest) = c :: more := by
    rw [name, List.takeWhile_append_of_pos (List.all_eq_true.mp inside),
      takeWhile_of_endsWord ends (by decide) (by decide), List.append_nil]
  rw [List.cons_append] at whole ⊢
  simp only [first?, start, if_true, whole]

theorem first?_name {word : List Char} (isName : isName word = true) :
    first? (word ++ rest) = some (.name, word) := by
  cases word with
  | nil => simp [Word.isName] at isName
  | cons c more =>
    simp only [Word.isName, Bool.and_eq_true, Option.isNone_iff_eq_none] at isName
    rw [first?_letters ends isName.1.1 isName.1.2, nameKind, isName.2]
    rfl

theorem first?_keyword {word : List Char} {kind : Kind} (known : keyword? word = some kind) :
    first? (word ++ rest) = some (kind, word) := by
  have named : nameKind word = kind := by simp [nameKind, known]
  unfold keyword? at known
  split at known <;>
    first | exact named ▸ first?_letters ends (by decide) (by decide) | simp at known

theorem number_literal {before after : List Char}
    (beforeDigits : ∀ c ∈ before, c.isDigit = true)
    (afterDigits : ∀ c ∈ after, c.isDigit = true) :
    number (literalText before after ++ rest) = literalText before after := by
  have stopped : rest.takeWhile Char.isDigit = [] :=
    takeWhile_of_endsWord ends (by decide) (by decide)
  unfold number literalText
  by_cases whole : after = []
  · have kept : rest.dropWhile Char.isDigit = rest :=
      dropWhile_of_endsWord ends (by decide) (by decide)
    rw [if_pos whole, List.append_nil, List.takeWhile_append_of_pos beforeDigits,
      List.dropWhile_append_of_pos beforeDigits, stopped, kept, List.append_nil]
    split
    · rcases ends with point | point <;> simp at point
    · simp
  · have point : ('.' : Char).isDigit ≠ true := by decide
    rw [if_neg whole, List.append_assoc, List.cons_append,
      List.takeWhile_append_of_pos beforeDigits, List.dropWhile_append_of_pos beforeDigits,
      List.takeWhile_cons_of_neg point, List.dropWhile_cons_of_neg point]
    simp only [List.takeWhile_append_of_pos afterDigits, stopped, List.append_nil, if_neg whole]

theorem first?_literal {before after : List Char} (filled : before ≠ [])
    (beforeDigits : ∀ c ∈ before, c.isDigit = true)
    (afterDigits : ∀ c ∈ after, c.isDigit = true) :
    first? (literalText before after ++ rest) = some (.number, literalText before after) := by
  have fraction := number_literal ends beforeDigits afterDigits
  cases before with
  | nil => exact absurd rfl filled
  | cons c more =>
    have digit : c.isDigit = true := beforeDigits c (by simp)
    have front : literalText (c :: more) after ++ rest =
        c :: (literalText more after ++ rest) := rfl
    rw [front] at fraction ⊢
    simp only [first?, isNameStart_of_isDigit digit, Bool.false_eq_true, if_false, digit, if_true,
      fraction]

theorem first?_mark {word : List Char} {kind : Kind} (known : mark? word = some kind) :
    first? (word ++ rest) = some (kind, word) := by
  unfold mark? at known
  cases rest with
  | nil => split at known <;> first | (obtain rfl := Option.some.inj known; rfl) | simp at known
  | cons d rest =>
    rcases ends with rfl | rfl
    · split at known <;> first | (obtain rfl := Option.some.inj known; rfl) | simp at known
    · split at known <;> first | (obtain rfl := Option.some.inj known; rfl) | simp at known

end Ends

theorem not_isBlank_of_bounds {c : Char} (lower : 33 ≤ c.toNat) (upper : c.toNat ≤ 126) :
    Text.isBlank c = false := by
  simp only [Text.isBlank, Bool.or_eq_false_iff, Bool.and_eq_false_iff, decide_eq_false_iff_not,
    beq_eq_false_iff_ne]
  omega

theorem not_isBlank_of_isDigit {c : Char} (digit : c.isDigit = true) : Text.isBlank c = false := by
  have bounds := Digits.isDigit_iff.mp digit
  exact not_isBlank_of_bounds (by omega) (by omega)

theorem not_isBlank_of_isNameStart {c : Char} (start : isNameStart c = true) :
    Text.isBlank c = false := by
  rcases isNameStart_iff.mp start with upper | lower | rfl
  · exact not_isBlank_of_bounds (by omega) (by omega)
  · exact not_isBlank_of_bounds (by omega) (by omega)
  · decide

theorem exists_head_of_first? {text word : List Char} {kind : Kind}
    (found : first? text = some (kind, word)) :
    ∃ c more, word = c :: more ∧ Text.isBlank c = false := by
  rcases first?_cases found with
    ⟨c, more, rfl, start, _⟩ | ⟨before, after, rfl, filled, beforeDigits, _⟩ | mark
  · exact ⟨c, more, rfl, not_isBlank_of_isNameStart start⟩
  · cases before with
    | nil => exact absurd rfl filled
    | cons c more => exact ⟨c, _, rfl, not_isBlank_of_isDigit (beforeDigits c (by simp))⟩
  · unfold mark? at mark
    split at mark <;> first | exact ⟨_, _, rfl, by decide⟩ | simp at mark

end Word

namespace Cursor

variable {behind rest : List Char} {place : Place}

theorem readAll_eq (cursor : Cursor) :
    cursor.readAll =
      match cursor.read with
      | .finished after => (.ok [], after)
      | .stuck stray after => (.error stray, after)
      | .token token after =>
        match after.readAll with
        | (.ok tokens, last) => (.ok (token :: tokens), last)
        | (.error stray, last) => (.error stray, last) := by
  rw [readAll]
  split <;> rename_i found <;> exact found ▸ rfl

theorem readAll_blank {c : Char} (blank : Text.isBlank c = true) :
    readAll ⟨behind, c :: rest, place⟩ = readAll ⟨c :: behind, rest, place.step c⟩ := by
  have skipped : skipBlanks ⟨behind, c :: rest, place⟩ =
      skipBlanks ⟨c :: behind, rest, place.step c⟩ := by
    simp [skipBlanks, past, blank]
  rw [readAll_eq, readAll_eq ⟨c :: behind, rest, place.step c⟩]
  simp only [read, skipped]

theorem read_word {word : List Char} {kind : Kind}
    (found : Word.first? (word ++ rest) = some (kind, word)) :
    read ⟨behind, word ++ rest, place⟩ =
      .token ⟨kind, String.ofList word, place⟩
        ⟨word.reverse ++ behind, rest, place.after word⟩ := by
  obtain ⟨c, more, rfl, notBlank⟩ := Word.exists_head_of_first? found
  have stays : skipBlanks ⟨behind, c :: more ++ rest, place⟩ =
      ⟨behind, c :: more ++ rest, place⟩ := by
    simp [skipBlanks, past, notBlank]
  unfold read
  simp only [stays, found]
  simp [take, past]

/-- Where a word has ended after it, a text is read as some tokens, whatever lies around it. -/
def Reads (place : Place) (text : List Char) (tokens : List Token) : Prop :=
  ∀ (behind rest : List Char) (more : List Token) (last : Cursor), EndsWord rest →
    readAll ⟨text.reverse ++ behind, rest, place.after text⟩ = (.ok more, last) →
      readAll ⟨behind, text ++ rest, place⟩ = (.ok (tokens ++ more), last)

theorem reads_word {word : List Char} {kind : Kind}
    (found : ∀ rest, EndsWord rest → Word.first? (word ++ rest) = some (kind, word)) :
    Reads place word [⟨kind, String.ofList word, place⟩] := by
  intro behind rest more last ends follows
  rw [readAll_eq, read_word (found rest ends)]
  simp only [follows]
  rfl

theorem reads_keyword {word : List Char} {kind : Kind} (known : Word.keyword? word = some kind) :
    Reads place word [⟨kind, String.ofList word, place⟩] :=
  reads_word fun _ ends => Word.first?_keyword ends known

theorem reads_mark {word : List Char} {kind : Kind} (known : Word.mark? word = some kind) :
    Reads place word [⟨kind, String.ofList word, place⟩] :=
  reads_word fun _ ends => Word.first?_mark ends known

theorem Reads.spaced {first second : List Char} {firstTokens secondTokens : List Token}
    (reads : Reads place first firstTokens)
    (follows : Reads (place.after (first ++ [' '])) second secondTokens) :
    Reads place (first ++ ' ' :: second) (firstTokens ++ secondTokens) := by
  intro behind rest more last ends after
  rw [List.append_assoc, List.append_assoc]
  refine reads behind _ _ last (.inl rfl) ?_
  rw [List.cons_append, readAll_blank (by decide)]
  have here : (place.after first).step ' ' = place.after (first ++ [' ']) := by simp
  rw [here]
  refine follows _ rest more last ends ?_
  simpa using after

theorem Reads.parenthesized {text : List Char} {tokens : List Token}
    (reads : Reads (place.after ['(']) text tokens) :
    Reads place ('(' :: (text ++ [')']))
      (⟨.leftParen, "(", place⟩ ::
        (tokens ++ [⟨.rightParen, ")", place.after ('(' :: text)⟩])) := by
  intro behind rest more last ends after
  have closing : Word.first? ([')'] ++ rest) = some (.rightParen, [')']) :=
    Word.first?_mark ends rfl
  have closed : readAll ⟨text.reverse ++ '(' :: behind, [')'] ++ rest,
        (place.after ['(']).after text⟩ =
      (.ok (⟨.rightParen, ")", place.after ('(' :: text)⟩ :: more), last) := by
    rw [readAll_eq, read_word closing]
    simp only [List.reverse_cons, List.reverse_append, List.append_assoc, Place.after_cons,
      Place.after_nil, Place.after_append, List.reverse_nil, List.nil_append,
      List.cons_append] at after ⊢
    rw [after]
  have inside := reads ('(' :: behind) ([')'] ++ rest) _ last (.inr rfl) closed
  have split : '(' :: (text ++ [')']) ++ rest = ['('] ++ (text ++ ([')'] ++ rest)) := by simp
  rw [split, readAll_eq, read_word (Word.first?_leftParen _)]
  simp only [List.reverse_singleton, List.singleton_append] at inside ⊢
  simp only [inside]
  simp

theorem Reads.tokenize_eq {text : String} {tokens : List Token}
    (reads : Reads .start text.toList tokens) : tokenize text = .ok tokens := by
  have ends (cursor : Cursor) (atEnd : cursor.ahead = []) : cursor.readAll.1 = .ok [] := by
    rw [readAll_eq]
    simp [read, skipBlanks, past, atEnd]
  have all := reads [] [] [] _ trivial (Prod.ext (ends _ rfl) rfl)
  simp only [List.append_nil] at all
  rw [tokenize, Cursor.ofText, all]

end Cursor

end Funlet
