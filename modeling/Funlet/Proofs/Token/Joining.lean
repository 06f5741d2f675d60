import Funlet.Proofs.Token.Passage

/-!
# Texts with blanks between them

Two texts with blanks between them are read one after the other: no word looks beyond the blanks,
and what is read of the second text is where the first one and the blanks have put it.
-/

set_option autoImplicit false

namespace Funlet

def StrayCharacter.beyond (front : List Char) (stray : StrayCharacter) : StrayCharacter where
  position := stray.position + front.length
  place := stray.place.beyond front
  char := stray.char

theorem Place.after_start_after (front text : List Char) :
    (start.after front).after text = (start.after text).beyond front := by
  rw [← start_beyond]
  exact (after_beyond front (by decide) text).1

/-- A text behind another one gives its tokens or its stray character there. -/
theorem Cursor.readAll_behind (front : List Char) (text : String) :
    (∀ tokens, tokenize text = .ok tokens →
      (readAll ⟨front.reverse, text.toList, Place.start.after front⟩).1 =
        .ok (tokens.map (Token.beyond front))) ∧
    (∀ stray, tokenize text = .error stray →
      (readAll ⟨front.reverse, text.toList, Place.start.after front⟩).1 =
        .error (stray.beyond front)) := by
  rcases tokenize_cases text with
    ⟨before, rest, tokens, split, takes, blank, lexed⟩ |
    ⟨before, gap, c, more, tokens, split, takes, blocks, failed⟩
  · have moved := takes.beyond front (by decide)
    rw [Place.start_beyond] at moved
    refine ⟨fun other same => ?_, fun stray same => ?_⟩
    · obtain rfl := Except.ok.inj (lexed.symm.trans same)
      rw [split, readAll_takes moved, readAll_blanks blank]
      exact congrArg Except.ok (List.append_nil _)
    · rw [lexed] at same
      cases same
  · have moved := takes.beyond front (by decide)
    rw [Place.start_beyond] at moved
    refine ⟨fun other same => ?_, fun stray same => ?_⟩
    · rw [failed] at same
      cases same
    · obtain rfl := Except.error.inj (failed.symm.trans same)
      rw [split, readAll_takes moved, readAll_blocked blocks, ← Place.after_append,
        Place.after_start_after]
      have position : gap.length + (before.length + front.length) =
          before.length + gap.length + front.length := by omega
      simp only [afterTokens, StrayCharacter.beyond, List.length_append, List.length_reverse,
        position]

section Joining

variable {first gap second : String} (filled : gap ≠ "")
  (blank : ∀ c ∈ gap.toList, Text.isBlank c = true)

include filled blank

theorem beginsBlank_gap : BeginsBlank (gap.toList ++ second.toList) := by
  cases shape : gap.toList with
  | nil => exact absurd (String.toList_eq_nil_iff.mp shape) filled
  | cons c more =>
    intro d head
    obtain rfl := Option.some.inj head
    exact blank _ (by simp [shape])

theorem tokenize_joined_of_ok {tokens : List Token} (lexed : tokenize first = .ok tokens) :
    tokenize (first ++ gap ++ second) =
      Cursor.afterTokens tokens
        (Cursor.readAll ⟨(first ++ gap).toList.reverse, second.toList,
          Place.start.after (first ++ gap).toList⟩).1 := by
  rcases tokenize_cases first with
    ⟨front, rest, others, split, takes, restBlank, same⟩ |
    ⟨_, _, _, _, _, _, _, _, failed⟩
  · obtain rfl := Except.ok.inj (same.symm.trans lexed)
    have stops : BeginsBlank (gap.toList ++ second.toList) := beginsBlank_gap filled blank
    have whole : (first ++ gap ++ second).toList =
        front ++ (rest ++ (gap.toList ++ second.toList)) := by simp [split]
    have gaps : ∀ c ∈ rest ++ gap.toList, Text.isBlank c = true :=
      List.forall_mem_append.mpr ⟨restBlank, blank⟩
    rw [tokenize, Cursor.ofText, whole, Cursor.readAll_takes (takes.unnoticed
      (unnoticed_blanks rest stops)), ← List.append_assoc rest, Cursor.readAll_gap gaps]
    simp [split]
  · rw [failed] at lexed
    cases lexed

theorem tokenize_joined_of_error {stray : StrayCharacter}
    (failed : tokenize first = .error stray) :
    tokenize (first ++ gap ++ second) = .error stray := by
  rcases tokenize_cases first with
    ⟨_, _, _, _, _, _, lexed⟩ |
    ⟨front, between, c, more, tokens, split, takes, blocks, same⟩
  · rw [lexed] at failed
    cases failed
  · obtain rfl := Except.error.inj (same.symm.trans failed)
    have stops : BeginsBlank (gap.toList ++ second.toList) := beginsBlank_gap filled blank
    have whole : (first ++ gap ++ second).toList =
        front ++ ((between ++ c :: more) ++ (gap.toList ++ second.toList)) := by simp [split]
    have stuck := Word.first?_beforeBlank (c :: more) stops
    rw [blocks.stuck] at stuck
    refine tokenize_of_blocks whole (takes.unnoticed (unnoticed_blanks _ stops)) ?_
      ⟨blocks.blank, blocks.visible, stuck⟩
    simp

/-- Reading goes on across blanks: the tokens of a text, blanks and another text are those of the
first text and then, at their places behind it and the blanks, those of the second one.  A stray
character of the first text is met as if nothing followed, and one of the second text as if it alone
were read, but for its place. -/
theorem tokenize_across_blanks :
    (∀ tokens more, tokenize first = .ok tokens → tokenize second = .ok more →
      tokenize (first ++ gap ++ second) =
        .ok (tokens ++ more.map (Token.beyond (first ++ gap).toList))) ∧
    (∀ stray, tokenize first = .error stray →
      tokenize (first ++ gap ++ second) = .error stray) ∧
    ∀ tokens stray, tokenize first = .ok tokens → tokenize second = .error stray →
      tokenize (first ++ gap ++ second) = .error (stray.beyond (first ++ gap).toList) := by
  obtain ⟨accepted, refused⟩ := Cursor.readAll_behind (first ++ gap).toList second
  refine ⟨fun tokens more lexed lexedMore => ?_, fun stray failed => ?_,
    fun tokens stray lexed failed => ?_⟩
  · rw [tokenize_joined_of_ok filled blank lexed, accepted more lexedMore]
    rfl
  · exact tokenize_joined_of_error filled blank failed
  · rw [tokenize_joined_of_ok filled blank lexed, refused stray failed]
    rfl

end Joining

theorem tokenize_across_blanks_lines :
    (" \n" ≠ "" ∧ ∀ c ∈ " \n".toList, Text.isBlank c = true) ∧
      tokenize "f" = .ok [⟨.name, "f", ⟨1, 1⟩⟩] ∧ tokenize "1.\nx" = .error ⟨1, ⟨1, 2⟩, '.'⟩ ∧
      tokenize ("f" ++ " \n" ++ "1.\nx") = .error ⟨4, ⟨2, 2⟩, '.'⟩ := by
  have filled : " \n" ≠ "" := by decide
  have blank : ∀ c ∈ " \n".toList, Text.isBlank c = true := List.all_eq_true.mp rfl
  have first : tokenize "f" = .ok [⟨.name, "f", ⟨1, 1⟩⟩] := by decide +kernel
  have second : tokenize "1.\nx" = .error ⟨1, ⟨1, 2⟩, '.'⟩ := by decide +kernel
  have joined := (tokenize_across_blanks filled blank).2.2 _ _ first second
  exact ⟨⟨filled, blank⟩, first, second, joined.trans (by decide +kernel)⟩

end Funlet
