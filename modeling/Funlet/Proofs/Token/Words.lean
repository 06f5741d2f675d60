import Funlet.Proofs.Token.Munch
import Funlet.Token.Cursor

/-!
# The words of a text

Every token of a text is a word of the language.  So its kind tells how it is written: a number is a
literal, and a name is no keyword.  There are no tokens of other kinds than those of words.
-/

set_option autoImplicit false

namespace Funlet

namespace Word

theorem first?_cases {text word : List Char} {kind : Kind}
    (found : first? text = some (kind, word)) :
    (∃ c rest, word = c :: rest ∧ isNameStart c = true ∧ word.all isNameChar = true ∧
      kind = nameKind word) ∨
    (∃ before after, word = literalText before after ∧ before ≠ [] ∧
      (∀ c ∈ before, c.isDigit = true) ∧ (∀ c ∈ after, c.isDigit = true) ∧ kind = .number) ∨
    mark? word = some kind := by
  cases munches_of_first? found with
  | identifier longest =>
    obtain ⟨c, rest, rfl, start, inside⟩ := longest.shaped
    refine .inl ⟨c, rest, rfl, start, ?_, rfl⟩
    exact List.all_eq_true.mpr (List.forall_mem_cons.mpr ⟨isNameChar_of_isNameStart start, inside⟩)
  | number longest =>
    obtain ⟨before, after, shape, filled, beforeDigits, afterDigits⟩ := longest.shaped
    exact .inr (.inl ⟨before, after, shape, filled, beforeDigits, afterDigits, rfl⟩)
  | mark _ _ _ known => exact .inr (.inr known)

theorem keyword?_kinds {word : List Char} {kind : Kind} (found : keyword? word = some kind) :
    kind ∈ [Kind.letWord, .inWord, .ifWord, .thenWord, .elseWord, .lambda] := by
  unfold keyword? at found
  split at found <;> simp_all

theorem mark?_kinds {word : List Char} {kind : Kind} (found : mark? word = some kind) :
    kind ∈ [Kind.leftParen, .rightParen, .semicolon, .arrow, .operator] := by
  unfold mark? at found
  split at found <;> simp_all

end Word

namespace Token

/-- The token is the word at the front of some text. -/
def IsWord (token : Token) : Prop :=
  ∃ ahead : List Char, Word.first? ahead = some (token.kind, token.text.toList)

variable {token : Token} (word : token.IsWord)

include word

theorem IsWord.isName (kind : token.kind = .name) : Word.isName token.text.toList = true := by
  obtain ⟨ahead, found⟩ := word
  rcases Word.first?_cases found with
    ⟨c, rest, shape, start, inside, nameKind⟩ | ⟨_, _, _, _, _, _, number⟩ | mark
  · have notKeyword : Word.keyword? token.text.toList = none := by
      cases keyword : Word.keyword? token.text.toList with
      | none => rfl
      | some other =>
        have kinds := Word.keyword?_kinds keyword
        simp only [Word.nameKind, keyword, Option.getD_some] at nameKind
        rw [← nameKind, kind] at kinds
        simp at kinds
    rw [shape] at inside notKeyword ⊢
    simp only [Word.isName, start, inside, notKeyword]
    rfl
  · simp [kind] at number
  · have kinds := Word.mark?_kinds mark
    simp [kind] at kinds

theorem IsWord.exists_literal (kind : token.kind = .number) :
    ∃ before after, token.text = String.ofList (literalText before after) ∧ before ≠ [] ∧
      (∀ c ∈ before, c.isDigit = true) ∧ ∀ c ∈ after, c.isDigit = true := by
  obtain ⟨ahead, found⟩ := word
  rcases Word.first?_cases found with
    ⟨_, _, _, _, _, nameKind⟩ | ⟨before, after, shape, filled, beforeDigits, afterDigits, _⟩ | mark
  · rw [kind, Word.nameKind] at nameKind
    cases keyword : Word.keyword? token.text.toList with
    | none => simp [keyword] at nameKind
    | some other =>
      have kinds := Word.keyword?_kinds keyword
      simp only [keyword, Option.getD_some] at nameKind
      simp [← nameKind] at kinds
  · exact ⟨before, after, by rw [← shape, String.ofList_toList], filled, beforeDigits, afterDigits⟩
  · have kinds := Word.mark?_kinds mark
    simp [kind] at kinds

theorem IsWord.exists_readReal? (kind : token.kind = .number) :
    ∃ size, Numeral.readReal? token.text = some (.ofSize false size) := by
  obtain ⟨before, after, text, filled, beforeDigits, afterDigits⟩ := word.exists_literal kind
  exact ⟨_, text ▸ Numeral.readReal?_literal beforeDigits afterDigits filled⟩

end Token

theorem Cursor.isWord_of_read {cursor after : Cursor} {token : Token}
    (read : cursor.read = .token token after) : token.IsWord := by
  unfold Cursor.read at read
  simp only at read
  split at read
  · simp at read
  · rename_i c rest _
    split at read
    · rename_i kind word found
      simp only [take, Reading.token.injEq] at read
      obtain ⟨rfl, _⟩ := read
      exact ⟨cursor.skipBlanks.ahead, by simpa using found⟩
    · simp at read

theorem Cursor.isWord_of_readAll {cursor : Cursor} {tokens : List Token}
    (read : cursor.readAll.1 = .ok tokens) : ∀ token ∈ tokens, token.IsWord := by
  fun_induction readAll cursor generalizing tokens with
  | case1 => simp_all
  | case2 => simp at read
  | case3 cursor token after found more last rest ih =>
    obtain rfl := Except.ok.inj read
    intro other member
    rcases List.mem_cons.mp member with rfl | later
    · exact isWord_of_read found
    · exact ih (by rw [rest]) other later
  | case4 => simp at read

theorem isWord_of_tokenize {text : String} {tokens : List Token}
    (lexed : tokenize text = .ok tokens) : ∀ token ∈ tokens, token.IsWord :=
  Cursor.isWord_of_readAll lexed

end Funlet
