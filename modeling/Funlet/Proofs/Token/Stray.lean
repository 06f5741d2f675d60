import Funlet.Proofs.Token.Passage

/-!
# The stray character of a text

A text without tokens is refused because of one character: what comes before it can be read, no word
begins at it, and what comes behind the character after it does not matter.
-/

set_option autoImplicit false

namespace Funlet

/-- Reading a text stops at this character, between what comes before it and what comes behind it,
and nothing else is the reason. -/
structure StrayCharacter.IsToBlame (stray : StrayCharacter) (text : String)
    (before behind : List Char) : Prop where
  stands : text.toList = before ++ stray.char :: behind
  position : stray.position = before.length
  line : stray.place.line = 1 + before.count '\n'
  column : stray.place.column = 1 + (before.reverse.takeWhile (· ≠ '\n')).length
  visible : Text.isBlank stray.char = false
  noWord : ∀ word, word <+: stray.char :: behind →
    ¬ Word.IsIdentifier word ∧ ¬ Word.IsNumber word ∧ ¬ Word.IsMark word
  /-- Nothing before the character is wrong. -/
  readable : ∃ tokens, tokenize (String.ofList before) = .ok tokens
  /-- Nothing behind the next character is wrong, either. -/
  settled : behind ≠ [] → ∀ other : String, text.toList.take (stray.position + 2) <+: other.toList →
    tokenize other = .error stray

section Blocked

variable {front gap more : List Char} {c : Char} {tokens : List Token}
  (takes : Takes (gap ++ c :: more) .start front tokens) (blocks : Blocks gap c more)

include takes blocks

/-- The text up to the character at which reading stops has the tokens that were read. -/
theorem tokenize_before_blocks : tokenize (String.ofList (front ++ gap)) = .ok tokens := by
  have cut := takes.unnoticed (unnoticed_cut gap (c :: more))
  exact tokenize_of_blanks String.toList_ofList cut blocks.blank

theorem tokenize_behind_blocks {other : String} {d : Char} {later : List Char}
    (next : more.head? = some d) (same : other.toList = front ++ (gap ++ c :: d :: later)) :
    tokenize other = .error ⟨(front ++ gap).length, Place.start.after (front ++ gap), c⟩ := by
  obtain ⟨rest, rfl⟩ : ∃ rest, more = d :: rest := List.head?_eq_some_iff.mp next
  have near : (c :: d :: later).take 2 = (c :: d :: rest).take 2 := rfl
  have kept : (gap ++ c :: d :: later).take 2 = (gap ++ c :: d :: rest).take 2 := by
    have fewer := congrArg (List.take (2 - gap.length)) near
    rw [List.take_take, List.take_take, Nat.min_eq_left (Nat.sub_le 2 _)] at fewer
    rw [List.take_append, List.take_append, fewer]
  have stuck := Word.first?_eq_none_sameNext blocks.stuck near
  exact tokenize_of_blocks same (takes.unnoticed (unnoticed_sameNext kept)) rfl
    ⟨blocks.blank, blocks.visible, stuck⟩

end Blocked

theorem exists_behind_of_same_begin {before more : List Char} {c d : Char} {text other : List Char}
    (split : text = before ++ c :: d :: more) (begins : text.take (before.length + 2) <+: other) :
    ∃ later, other = before ++ c :: d :: later := by
  obtain ⟨later, rfl⟩ := begins
  refine ⟨later, ?_⟩
  rw [split, List.take_length_add_append, List.append_assoc]
  rfl

/-- A text that has no tokens is refused because of its first character that no word begins at. -/
theorem tokenize_blames_stray {text : String} {stray : StrayCharacter}
    (refused : tokenize text = .error stray) :
    ∃ before behind, stray.IsToBlame text before behind := by
  rcases tokenize_cases text with
    ⟨_, _, _, _, _, _, lexed⟩ | ⟨front, gap, c, more, tokens, split, takes, blocks, stopped⟩
  · rw [lexed] at refused
    cases refused
  · obtain rfl := Except.error.inj (stopped.symm.trans refused)
    have place := Place.start_after (front ++ gap)
    refine ⟨front ++ gap, more, ?_⟩
    exact {
      stands := by rw [split, List.append_assoc]
      position := rfl
      line := congrArg Place.line place
      column := congrArg Place.column place
      visible := blocks.visible
      noWord := Word.first?_eq_none_iff.mp blocks.stuck
      readable := ⟨tokens, tokenize_before_blocks takes blocks⟩
      settled := by
        intro filled other begins
        obtain ⟨d, rest, rfl⟩ := List.exists_cons_of_ne_nil filled
        have whole : text.toList = (front ++ gap) ++ c :: d :: rest := by
          rw [split, List.append_assoc]
        obtain ⟨later, same⟩ := exists_behind_of_same_begin whole begins
        rw [List.append_assoc] at same
        exact tokenize_behind_blocks takes blocks rfl same }

theorem tokenize_blames_stray_point :
    tokenize "f\n 1.2.x" = .error ⟨6, ⟨2, 5⟩, '.'⟩ ∧
      ∃ before behind, StrayCharacter.IsToBlame ⟨6, ⟨2, 5⟩, '.'⟩ "f\n 1.2.x" before behind := by
  have refused : tokenize "f\n 1.2.x" = .error ⟨6, ⟨2, 5⟩, '.'⟩ := by decide +kernel
  exact ⟨refused, tokenize_blames_stray refused⟩

end Funlet
