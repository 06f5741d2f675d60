import Funlet.Proofs.Token.Written

/-!
# Where the tokens of a text stand

Reading a text into tokens loses nothing but blanks.  The text is cut into pieces, each of some
blanks and one token, with blanks after the last; every token is the longest word that the rest of
the text begins with, and its place tells how many lines and characters come before it.
-/

set_option autoImplicit false

namespace Funlet

/-! ## Places -/

theorem Place.start_after (before : List Char) :
    Place.start.after before =
      ⟨1 + before.count '\n', 1 + (before.reverse.takeWhile (· ≠ '\n')).length⟩ := by
  rw [← before.reverse_reverse, List.reverse_reverse before.reverse, List.count_reverse]
  induction before.reverse with
  | nil => rfl
  | cons c behind ih =>
    rw [List.reverse_cons, after_append, ih, after_cons, after_nil]
    by_cases feed : c = '\n'
    · subst feed
      simp [step, Int.add_assoc]
    · simp [step, feed, Int.add_assoc]

/-- A token begins between two parts of a text: it is the longest word at the front of the second,
and its place is counted over the first. -/
structure Token.StandsBetween (token : Token) (before ahead : List Char) : Prop where
  munches : Word.Munches ahead token.kind token.text.toList
  isWord : token.kind ≠ .endOfInput
  line : token.place.line = 1 + before.count '\n'
  column : token.place.column = 1 + (before.reverse.takeWhile (· ≠ '\n')).length

theorem Word.Munches.kind_ne_endOfInput {text word : List Char} {kind : Kind}
    (munches : Munches text kind word) : kind ≠ .endOfInput := by
  rintro rfl
  rcases first?_cases (first?_of_munches munches) with
    ⟨_, _, _, _, _, named⟩ | ⟨_, _, _, _, _, _, number⟩ | mark
  · unfold nameKind at named
    cases keyword : keyword? word with
    | none => simp [keyword] at named
    | some kind =>
      have kinds := keyword?_kinds keyword
      rw [keyword, Option.getD_some] at named
      simp [← named] at kinds
  · simp at number
  · have kinds := mark?_kinds mark
    simp at kinds

theorem Token.standsBetween_iff {token : Token} {before ahead : List Char} :
    token.StandsBetween before ahead ↔
      Word.Munches ahead token.kind token.text.toList ∧
        token.place = Place.start.after before := by
  rw [Place.start_after]
  constructor
  · intro stands
    exact ⟨stands.munches, congrArg₂ Place.mk stands.line stands.column⟩
  · intro ⟨munches, place⟩
    exact ⟨munches, munches.kind_ne_endOfInput, congrArg Place.line place,
      congrArg Place.column place⟩

/-! ## Pieces -/

/-- A token of a text and the characters between it and the token before. -/
structure Piece where
  gap : List Char
  token : Token

def Piece.chars (piece : Piece) : List Char := piece.gap ++ piece.token.text.toList

/-- Characters are cut into pieces, with a last gap behind them.  They stand behind other
characters, which count for the places of the tokens. -/
structure Layout (behind ahead : List Char) (pieces : List Piece) (last : List Char) : Prop where
  lossless : ahead = pieces.flatMap Piece.chars ++ last
  gaps : ∀ piece ∈ pieces, ∀ c ∈ piece.gap, Text.isBlank c = true
  lastGap : ∀ c ∈ last, Text.isBlank c = true
  stands : ∀ before piece after, pieces = before ++ piece :: after →
    piece.token.StandsBetween (behind ++ before.flatMap Piece.chars ++ piece.gap)
      (piece.token.text.toList ++ after.flatMap Piece.chars ++ last)

theorem layout_nil {behind last : List Char} (blank : ∀ c ∈ last, Text.isBlank c = true) :
    Layout behind last [] last where
  lossless := rfl
  gaps := by simp
  lastGap := blank
  stands := by simp

theorem Layout.cons {behind rest last : List Char} {piece : Piece} {pieces : List Piece}
    (layout : Layout (behind ++ piece.chars) rest pieces last)
    (gap : ∀ c ∈ piece.gap, Text.isBlank c = true)
    (stands : piece.token.StandsBetween (behind ++ piece.gap) (piece.token.text.toList ++ rest)) :
    Layout behind (piece.chars ++ rest) (piece :: pieces) last where
  lossless := by
    rw [layout.lossless]
    simp
  gaps := List.forall_mem_cons.mpr ⟨gap, layout.gaps⟩
  lastGap := layout.lastGap
  stands := by
    intro before other after split
    cases before with
    | nil =>
      obtain ⟨rfl, rfl⟩ := List.cons.inj split
      rw [layout.lossless] at stands
      simpa using stands
    | cons first before =>
      obtain ⟨rfl, rfl⟩ := List.cons.inj split
      simpa using layout.stands before other after rfl

theorem Layout.tail {behind ahead last : List Char} {piece : Piece} {pieces : List Piece}
    (layout : Layout behind ahead (piece :: pieces) last) :
    Layout (behind ++ piece.chars) (pieces.flatMap Piece.chars ++ last) pieces last where
  lossless := rfl
  gaps := (List.forall_mem_cons.mp layout.gaps).2
  lastGap := layout.lastGap
  stands := by
    intro before other after split
    simpa using layout.stands (piece :: before) other after (by rw [split, List.cons_append])

/-! ## Reading -/

namespace Cursor

def Placed (cursor : Cursor) : Prop :=
  cursor.place = Place.start.after cursor.behind.reverse

theorem Placed.past {behind rest : List Char} {place : Place} (word : List Char)
    (placed : Placed ⟨behind, word ++ rest, place⟩) :
    Placed ⟨word.reverse ++ behind, rest, place.after word⟩ := by
  simp only [Placed] at placed ⊢
  rw [placed, List.reverse_append, List.reverse_reverse, Place.after_append]

theorem skipBlanks_eq {gap rest : List Char} (behind : List Char) (place : Place)
    (blank : ∀ c ∈ gap, Text.isBlank c = true) (stops : rest.takeWhile Text.isBlank = []) :
    skipBlanks ⟨behind, gap ++ rest, place⟩ = ⟨gap.reverse ++ behind, rest, place.after gap⟩ := by
  rw [skipBlanks, List.takeWhile_append_of_pos blank, stops, List.append_nil]
  simp [past]

theorem exists_gap (cursor : Cursor) :
    ∃ gap rest, cursor.ahead = gap ++ rest ∧ (∀ c ∈ gap, Text.isBlank c = true) ∧
      rest.takeWhile Text.isBlank = [] := by
  refine ⟨cursor.ahead.takeWhile Text.isBlank, cursor.ahead.dropWhile Text.isBlank,
    List.takeWhile_append_dropWhile.symm, fun c member => List.mem_takeWhile_imp member, ?_⟩
  cases front : cursor.ahead.dropWhile Text.isBlank with
  | nil => rfl
  | cons c rest =>
    have notBlank := List.head?_dropWhile_not Text.isBlank cursor.ahead
    rw [front] at notBlank
    exact List.takeWhile_cons_of_neg (by simpa using notBlank)

theorem read_gap_word {gap word rest : List Char} {kind : Kind} (behind : List Char)
    (place : Place) (blank : ∀ c ∈ gap, Text.isBlank c = true)
    (found : Word.first? (word ++ rest) = some (kind, word)) :
    read ⟨behind, gap ++ (word ++ rest), place⟩ =
      .token ⟨kind, String.ofList word, place.after gap⟩
        ⟨word.reverse ++ (gap.reverse ++ behind), rest, (place.after gap).after word⟩ := by
  obtain ⟨c, more, rfl, notBlank⟩ := Word.exists_head_of_first? found
  have stops : (c :: more ++ rest).takeWhile Text.isBlank = [] := by simp [notBlank]
  have skipped := skipBlanks_eq behind place blank stops
  rw [read]
  simp only [skipped, found]
  simp [take, past]

theorem exists_word_of_read {cursor after : Cursor} {token : Token}
    (read : cursor.read = .token token after) :
    ∃ gap rest, cursor.ahead = gap ++ (token.text.toList ++ rest) ∧
      (∀ c ∈ gap, Text.isBlank c = true) ∧
      Word.first? (token.text.toList ++ rest) = some (token.kind, token.text.toList) := by
  obtain ⟨behind, ahead, place⟩ := cursor
  obtain ⟨gap, rest, split, blank, stops⟩ := exists_gap ⟨behind, ahead, place⟩
  obtain rfl : ahead = gap ++ rest := split
  have skipped := skipBlanks_eq behind place blank stops
  unfold Cursor.read at read
  simp only [skipped] at read
  cases rest with
  | nil => simp at read
  | cons c rest =>
    cases found : Word.first? (c :: rest) with
    | none => simp [found] at read
    | some word =>
      obtain ⟨kind, word⟩ := word
      simp only [found, take, Reading.token.injEq] at read
      obtain ⟨rfl, _⟩ := read
      obtain ⟨more, whole⟩ := (Word.munches_of_first? found).front
      refine ⟨gap, more, ?_, blank, ?_⟩
      · simp [whole]
      · simp [whole, found]

theorem read_blank {cursor : Cursor} (blank : ∀ c ∈ cursor.ahead, Text.isBlank c = true) :
    ∃ after, cursor.read = .finished after := by
  obtain ⟨behind, ahead, place⟩ := cursor
  have skipped := skipBlanks_eq behind place blank List.takeWhile_nil
  rw [List.append_nil] at skipped
  exact ⟨_, by simp only [read, skipped]; rfl⟩

theorem blank_of_read {cursor after : Cursor} (read : cursor.read = .finished after) :
    ∀ c ∈ cursor.ahead, Text.isBlank c = true := by
  obtain ⟨behind, ahead, place⟩ := cursor
  obtain ⟨gap, rest, split, blank, stops⟩ := exists_gap ⟨behind, ahead, place⟩
  obtain rfl : ahead = gap ++ rest := split
  have skipped := skipBlanks_eq behind place blank stops
  unfold Cursor.read at read
  simp only [skipped] at read
  cases rest with
  | nil =>
    rw [List.append_nil]
    exact blank
  | cons c rest =>
    cases found : Word.first? (c :: rest) with
    | none => simp [found] at read
    | some word => simp [found] at read

theorem readAll_cons {cursor after : Cursor} {token : Token} {tokens : List Token}
    (read : cursor.read = .token token after) (rest : after.readAll.1 = .ok tokens) :
    cursor.readAll.1 = .ok (token :: tokens) := by
  rw [readAll_eq, read]
  cases reads : after.readAll with
  | mk outcome last =>
    rw [reads] at rest
    obtain rfl : outcome = .ok tokens := rest
    simp only [reads]

theorem exists_layout_of_readAll {cursor : Cursor} {tokens : List Token} (placed : cursor.Placed)
    (all : cursor.readAll.1 = .ok tokens) :
    ∃ pieces last, tokens = pieces.map Piece.token ∧
      Layout cursor.behind.reverse cursor.ahead pieces last := by
  fun_induction readAll cursor generalizing tokens with
  | case1 cursor after finished =>
    obtain rfl := Except.ok.inj all
    exact ⟨[], cursor.ahead, rfl, layout_nil (blank_of_read finished)⟩
  | case2 => simp at all
  | case3 cursor token after found more last reads ih =>
    obtain rfl := Except.ok.inj all
    obtain ⟨gap, rest, split, blank, word⟩ := exists_word_of_read found
    obtain ⟨behind, ahead, place⟩ := cursor
    obtain rfl : ahead = gap ++ (token.text.toList ++ rest) := split
    rw [read_gap_word _ _ blank word] at found
    obtain ⟨same, rfl⟩ := Reading.token.inj found
    obtain ⟨pieces, last, rfl, layout⟩ := ih ((placed.past gap).past _) (by rw [reads])
    have chars : behind.reverse ++ (Piece.mk gap token).chars =
        (token.text.toList.reverse ++ (gap.reverse ++ behind)).reverse := by
      simp [Piece.chars]
    have stands : token.StandsBetween (behind.reverse ++ gap) (token.text.toList ++ rest) := by
      refine Token.standsBetween_iff.mpr ⟨Word.munches_of_first? word, ?_⟩
      rw [← same, Place.after_append, ← placed]
    rw [← chars] at layout
    have whole := layout.cons blank stands
    refine ⟨⟨gap, token⟩ :: pieces, last, rfl, ?_⟩
    simpa [Piece.chars] using whole
  | case4 => simp at all

theorem readAll_of_layout {pieces : List Piece} {cursor : Cursor} {last : List Char}
    (placed : cursor.Placed) (layout : Layout cursor.behind.reverse cursor.ahead pieces last) :
    cursor.readAll.1 = .ok (pieces.map Piece.token) := by
  induction pieces generalizing cursor with
  | nil =>
    have blank : ∀ c ∈ cursor.ahead, Text.isBlank c = true := by
      rw [layout.lossless]
      exact layout.lastGap
    obtain ⟨after, finished⟩ := read_blank blank
    rw [readAll_eq, finished]
    rfl
  | cons piece pieces ih =>
    obtain ⟨behind, ahead, place⟩ := cursor
    have stands := layout.stands [] piece pieces rfl
    obtain ⟨munches, located⟩ := Token.standsBetween_iff.mp stands
    have split : ahead =
        piece.gap ++ (piece.token.text.toList ++ (pieces.flatMap Piece.chars ++ last)) :=
      layout.lossless.trans (by simp [Piece.chars])
    subst split
    simp only [List.flatMap_nil, List.append_nil, List.append_assoc] at munches located
    have placedGap := placed.past piece.gap
    have chars : behind.reverse ++ piece.chars =
        (piece.token.text.toList.reverse ++ (piece.gap.reverse ++ behind)).reverse := by
      simp [Piece.chars]
    have tail := layout.tail
    rw [chars] at tail
    rw [Place.after_append, ← placed] at located
    have token : (⟨piece.token.kind, String.ofList piece.token.text.toList,
        place.after piece.gap⟩ : Token) = piece.token := by
      rw [String.ofList_toList, ← located]
    have read := read_gap_word behind place (layout.gaps piece (by simp))
      (Word.first?_of_munches munches)
    rw [token] at read
    exact readAll_cons read (ih (placedGap.past _) tail)

end Cursor

/-- A text has some tokens if and only if it is laid out as them: blanks aside nothing is lost, and
every token is the longest word where it begins and knows where that is. -/
theorem tokenize_eq_ok_iff_layout {text : String} {tokens : List Token} :
    tokenize text = .ok tokens ↔
      ∃ pieces last, tokens = pieces.map Piece.token ∧ Layout [] text.toList pieces last := by
  have placed : (Cursor.ofText text).Placed := rfl
  constructor
  · intro lexed
    exact Cursor.exists_layout_of_readAll placed lexed
  · rintro ⟨pieces, last, rfl, layout⟩
    exact Cursor.readAll_of_layout placed layout

end Funlet
