import Funlet.Proofs.Token.Spacing

/-!
# Reading a part of a text

A text falls into a front from which reading takes tokens and a rest in which it ends: blanks only,
or blanks and a character that begins no word.  The front gives the same tokens before every other
rest that its words do not tell from this one, and it gives them at other places if it stands
elsewhere.
-/

set_option autoImplicit false

namespace Funlet

/-! ## Places in a longer text -/

/-- What is at a place in a text is here if another text is put in front of it: the lines of that
text are counted, and on the first line the characters behind its last line feed. -/
def Place.beyond (front : List Char) (place : Place) : Place where
  line := place.line + front.count '\n'
  column :=
    if place.line = 1 then place.column + (front.reverse.takeWhile (· ≠ '\n')).length
    else place.column

def Token.beyond (front : List Char) (token : Token) : Token :=
  { token with place := token.place.beyond front }

namespace Place

theorem start_beyond (front : List Char) : start.beyond front = start.after front := by
  rw [start_after]
  rfl

theorem step_beyond (front : List Char) {place : Place} (valid : 1 ≤ place.line) (c : Char) :
    (place.beyond front).step c = (place.step c).beyond front ∧ 1 ≤ (place.step c).line := by
  by_cases feed : c = '\n'
  · have later : place.line + 1 ≠ 1 := by omega
    simp only [step, beyond, if_pos feed, if_neg later]
    exact ⟨congrArg₂ Place.mk (by omega) rfl, by omega⟩
  · simp only [step, beyond, if_neg feed]
    refine ⟨?_, valid⟩
    split
    · exact congrArg₂ Place.mk rfl (by omega)
    · rfl

theorem after_beyond (front : List Char) {place : Place} (valid : 1 ≤ place.line)
    (text : List Char) :
    (place.beyond front).after text = (place.after text).beyond front ∧
      1 ≤ (place.after text).line := by
  induction text generalizing place with
  | nil => exact ⟨rfl, valid⟩
  | cons c text ih =>
    obtain ⟨same, stays⟩ := step_beyond front valid c
    rw [after_cons, after_cons, same]
    exact ih stays

end Place

/-! ## The front of a text -/

/-- Reading takes some tokens from a text that begins at a place, if the rest follows. -/
inductive Takes (rest : List Char) : Place → List Char → List Token → Prop where
  | nothing (place : Place) : Takes rest place [] []
  | token {place : Place} {gap word text : List Char} {kind : Kind} {tokens : List Token}
      (blank : ∀ c ∈ gap, Text.isBlank c = true)
      (found : Word.first? (word ++ (text ++ rest)) = some (kind, word))
      (more : Takes rest ((place.after gap).after word) text tokens) :
      Takes rest place (gap ++ (word ++ text))
        (⟨kind, String.ofList word, place.after gap⟩ :: tokens)

structure Blocks (gap : List Char) (c : Char) (more : List Char) : Prop where
  blank : ∀ d ∈ gap, Text.isBlank d = true
  visible : Text.isBlank c = false
  stuck : Word.first? (c :: more) = none

/-- A word before one rest of a text is a word before another one, too, whatever is between. -/
def Unnoticed (old new : List Char) : Prop :=
  ∀ word between kind, Word.first? (word ++ (between ++ old)) = some (kind, word) →
    Word.first? (word ++ (between ++ new)) = some (kind, word)

theorem Takes.unnoticed {old new : List Char} {place : Place} {text : List Char}
    {tokens : List Token} (takes : Takes old place text tokens) (change : Unnoticed old new) :
    Takes new place text tokens := by
  induction takes with
  | nothing place => exact .nothing place
  | token blank found more ih => exact .token blank (change _ _ _ found) ih

theorem Takes.beyond {rest : List Char} {place : Place} {text : List Char} {tokens : List Token}
    (front : List Char) (takes : Takes rest place text tokens) (valid : 1 ≤ place.line) :
    Takes rest (place.beyond front) text (tokens.map (Token.beyond front)) := by
  induction takes with
  | nothing place => exact .nothing _
  | @token place gap word text kind tokens blank found more ih =>
    obtain ⟨behindGap, gapValid⟩ := Place.after_beyond front valid gap
    obtain ⟨behindWord, wordValid⟩ := Place.after_beyond front gapValid word
    have moved := ih wordValid
    rw [← behindWord, ← behindGap] at moved
    have taken := Takes.token blank found moved
    rw [behindGap] at taken
    exact taken

theorem unnoticed_cut (kept cut : List Char) : Unnoticed (kept ++ cut) kept := by
  intro word between kind found
  have munches := Word.munches_of_first? found
  refine Word.first?_of_munches (munches.within (List.prefix_append word _) ?_)
  rw [← List.append_assoc, ← List.append_assoc, ← List.append_assoc]
  exact List.prefix_append _ cut

theorem unnoticed_blanks (old : List Char) {added : List Char} (stops : BeginsBlank added) :
    Unnoticed old (old ++ added) := by
  intro word between kind found
  have same := Word.first?_beforeBlank (word ++ (between ++ old)) stops
  rw [found, List.append_assoc, List.append_assoc] at same
  exact same

theorem unnoticed_sameNext {old new : List Char} (same : new.take 2 = old.take 2) :
    Unnoticed old new := by
  intro word between kind found
  have munches := Word.munches_of_first? found
  refine Word.first?_of_munches (munches.sameNext ?_)
  have next (count : Nat) : new.take (2 - count) = old.take (2 - count) := by
    have fewer := congrArg (List.take (2 - count)) same
    rwa [List.take_take, List.take_take, Nat.min_eq_left (Nat.sub_le 2 count)] at fewer
  rw [List.take_append, List.take_append, next]

theorem Takes.exists_before {rest : List Char} {place : Place} {text : List Char} {token : Token}
    {earlier later : List Token} (takes : Takes rest place text (earlier ++ token :: later)) :
    ∃ front gap behind, text = front ++ (gap ++ (token.text.toList ++ behind)) ∧
      Takes (gap ++ (token.text.toList ++ (behind ++ rest))) place front earlier ∧
      (∀ c ∈ gap, Text.isBlank c = true) ∧ token.place = place.after (front ++ gap) ∧
      Word.first? (token.text.toList ++ (behind ++ rest)) =
        some (token.kind, token.text.toList) := by
  induction earlier generalizing place text with
  | nil =>
    cases takes with
    | @token _ gap word text kind _ blank found more =>
      refine ⟨[], gap, text, ?_, .nothing place, blank, rfl, ?_⟩
      · simp
      · simpa using found
  | cons first earlier ih =>
    cases takes with
    | @token _ gap word text kind _ blank found more =>
      obtain ⟨front, between, behind, rfl, takes, betweenBlank, located, munched⟩ := ih more
      have found : Word.first?
          (word ++ (front ++ (between ++ (token.text.toList ++ (behind ++ rest))))) =
            some (kind, word) := by
        simpa using found
      refine ⟨gap ++ (word ++ front), between, behind, ?_, .token blank found takes, betweenBlank,
        ?_, munched⟩
      · simp
      · rw [located]
        simp

/-! ## Reading -/

namespace Cursor

variable {behind rest : List Char} {place : Place}

theorem readAll_gap {gap : List Char} (blank : ∀ c ∈ gap, Text.isBlank c = true) :
    readAll ⟨behind, gap ++ rest, place⟩ =
      readAll ⟨gap.reverse ++ behind, rest, place.after gap⟩ := by
  induction gap generalizing behind place with
  | nil => rfl
  | cons c gap ih =>
    obtain ⟨first, later⟩ := List.forall_mem_cons.mp blank
    rw [List.cons_append, readAll_blank first, ih later, List.reverse_cons, List.append_assoc]
    rfl

theorem readAll_blanks (blank : ∀ c ∈ rest, Text.isBlank c = true) :
    (readAll ⟨behind, rest, place⟩).1 = .ok [] := by
  obtain ⟨after, finished⟩ := @read_blank ⟨behind, rest, place⟩ blank
  rw [readAll_eq, finished]

theorem readAll_blocked {gap more : List Char} {c : Char} (blocks : Blocks gap c more) :
    (readAll ⟨behind, gap ++ c :: more, place⟩).1 =
      .error ⟨gap.length + behind.length, place.after gap, c⟩ := by
  have stays : skipBlanks ⟨gap.reverse ++ behind, c :: more, place.after gap⟩ =
      ⟨gap.reverse ++ behind, c :: more, place.after gap⟩ := by
    simp [skipBlanks, past, blocks.visible]
  rw [readAll_gap blocks.blank, readAll_eq]
  simp only [read, stays, blocks.stuck, position, List.length_append, List.length_reverse]

def afterTokens (tokens : List Token) :
    Except StrayCharacter (List Token) → Except StrayCharacter (List Token)
  | .ok more => .ok (tokens ++ more)
  | .error stray => .error stray

theorem readAll_of_token {cursor after : Cursor} {token : Token}
    (read : cursor.read = .token token after) :
    cursor.readAll.1 = afterTokens [token] after.readAll.1 := by
  rw [readAll_eq, read]
  cases reads : after.readAll with
  | mk outcome last =>
    simp only [reads]
    cases outcome <;> rfl

theorem readAll_takes {text : List Char} {tokens : List Token}
    (takes : Takes rest place text tokens) :
    (readAll ⟨behind, text ++ rest, place⟩).1 =
      afterTokens tokens (readAll ⟨text.reverse ++ behind, rest, place.after text⟩).1 := by
  induction takes generalizing behind with
  | nothing place =>
    rw [List.nil_append, List.reverse_nil, List.nil_append, Place.after_nil]
    cases (readAll ⟨behind, rest, place⟩).1 <;> rfl
  | @token place gap word text kind tokens blank found more ih =>
    have read := read_gap_word behind place blank found
    rw [List.append_assoc, List.append_assoc, readAll_of_token read, ih]
    simp only [List.reverse_append, List.append_assoc, Place.after_append]
    cases (readAll _).1 <;> rfl

theorem exists_takes (ahead : List Char) (place : Place) :
    ∃ text rest tokens, ahead = text ++ rest ∧ Takes rest place text tokens ∧
      ((∀ c ∈ rest, Text.isBlank c = true) ∨
        ∃ gap c more, rest = gap ++ c :: more ∧ Blocks gap c more) := by
  induction length : ahead.length using Nat.strongRecOn generalizing ahead place with
  | ind size ih =>
    subst length
    obtain ⟨gap, rest, split, blank, stops⟩ := exists_gap ⟨[], ahead, place⟩
    obtain rfl : ahead = gap ++ rest := split
    cases rest with
    | nil => exact ⟨[], gap, [], by simp, .nothing place, .inl blank⟩
    | cons c rest =>
      cases found : Word.first? (c :: rest) with
      | none =>
        have visible : Text.isBlank c = false := by
          rw [← Bool.not_eq_true]
          intro isBlank
          simp [isBlank] at stops
        exact ⟨[], gap ++ c :: rest, [], by simp, .nothing place,
          .inr ⟨gap, c, rest, rfl, blank, visible, found⟩⟩
      | some word =>
        obtain ⟨kind, word⟩ := word
        obtain ⟨more, whole⟩ := (Word.munches_of_first? found).front
        have filled := Word.ne_nil_of_first? found
        have fewer : more.length < (gap ++ c :: rest).length := by
          have := List.length_pos_iff.mpr filled
          simp only [← whole, List.length_append]
          omega
        obtain ⟨text, rest', tokens, rfl, takes, ends⟩ :=
          ih more.length fewer more ((place.after gap).after word) rfl
        rw [← whole] at found
        exact ⟨gap ++ (word ++ text), rest', _, by simp [← whole], .token blank found takes, ends⟩

end Cursor

/-! ## Texts -/

section Texts

variable {text : String} {front rest : List Char} {tokens : List Token}
  (split : text.toList = front ++ rest) (takes : Takes rest .start front tokens)

include split takes

theorem tokenize_of_blanks (blank : ∀ c ∈ rest, Text.isBlank c = true) :
    tokenize text = .ok tokens := by
  rw [tokenize, Cursor.ofText, split, Cursor.readAll_takes takes, Cursor.readAll_blanks blank]
  exact congrArg Except.ok (List.append_nil tokens)

theorem tokenize_of_blocks {gap more : List Char} {c : Char} (ends : rest = gap ++ c :: more)
    (blocks : Blocks gap c more) :
    tokenize text =
      .error ⟨(front ++ gap).length, Place.start.after (front ++ gap), c⟩ := by
  subst ends
  rw [tokenize, Cursor.ofText, split, Cursor.readAll_takes takes, Cursor.readAll_blocked blocks]
  simp [Cursor.afterTokens, Nat.add_comm]

end Texts

/-- Either blanks only are left of a text when its tokens have been taken, or a character that is no
blank and begins no word. -/
theorem tokenize_cases (text : String) :
    (∃ front rest tokens, text.toList = front ++ rest ∧ Takes rest .start front tokens ∧
      (∀ c ∈ rest, Text.isBlank c = true) ∧ tokenize text = .ok tokens) ∨
    ∃ front gap c more tokens, text.toList = front ++ (gap ++ c :: more) ∧
      Takes (gap ++ c :: more) .start front tokens ∧ Blocks gap c more ∧
      tokenize text = .error ⟨(front ++ gap).length, Place.start.after (front ++ gap), c⟩ := by
  obtain ⟨front, rest, tokens, split, takes, ends⟩ := Cursor.exists_takes text.toList .start
  rcases ends with blank | ⟨gap, c, more, rfl, blocks⟩
  · exact .inl ⟨front, rest, tokens, split, takes, blank, tokenize_of_blanks split takes blank⟩
  · exact .inr ⟨front, gap, c, more, tokens, split, takes, blocks,
      tokenize_of_blocks split takes rfl blocks⟩

theorem exists_before_of_tokenize {text : String} {token : Token} {earlier later : List Token}
    (lexed : tokenize text = .ok (earlier ++ token :: later)) :
    ∃ before behind, text.toList = before ++ (token.text.toList ++ behind) ∧
      token.StandsBetween before (token.text.toList ++ behind) ∧
      tokenize (String.ofList before) = .ok earlier := by
  rcases tokenize_cases text with
    ⟨front, rest, tokens, split, takes, _, same⟩ | ⟨_, _, _, _, _, _, _, _, failed⟩
  · obtain rfl := Except.ok.inj (same.symm.trans lexed)
    obtain ⟨front, gap, behind, rfl, takes, blank, located, found⟩ := takes.exists_before
    refine ⟨front ++ gap, behind ++ rest, by simp [split], ?_, ?_⟩
    · exact Token.standsBetween_iff.mpr ⟨Word.munches_of_first? found, located⟩
    · have cut := takes.unnoticed (unnoticed_cut gap _)
      exact tokenize_of_blanks String.toList_ofList cut blank
  · rw [failed] at lexed
    cases lexed

end Funlet
