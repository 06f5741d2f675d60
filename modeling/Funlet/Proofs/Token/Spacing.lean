import Funlet.Proofs.Token.Layout
import Funlet.Proofs.Token.Lookahead

/-!
# Tokens written apart

No word has a blank in it.  So the text of a token is read as that token wherever blanks follow it,
even if it touched the next token in the text that it was first read from, and a text in which all
tokens of another one are written apart has the same tokens at other places.
-/

set_option autoImplicit false

namespace Funlet

/-! ## Words and blanks -/

def BeginsBlank (text : List Char) : Prop := ∀ c ∈ text.head?, Text.isBlank c = true

def Solid (text : List Char) : Prop := ∀ c ∈ text, Text.isBlank c = false

theorem beginsBlank_of_blank {text : List Char} (blank : ∀ c ∈ text, Text.isBlank c = true) :
    BeginsBlank text := fun c first => blank c (List.mem_of_mem_head? first)

theorem Solid.prefix_of_append {front text rest : List Char} (solid : Solid front)
    (begins : front <+: text ++ rest) (stops : BeginsBlank rest) : front <+: text := by
  obtain ⟨back, split⟩ := begins
  rcases List.append_eq_append_iff.mp split with ⟨middle, inside, _⟩ | ⟨more, longer, behind⟩
  · exact ⟨middle, inside.symm⟩
  · cases more with
    | nil => exact ⟨[], by simp [longer]⟩
    | cons c more =>
      have blank : Text.isBlank c = true := stops c (by simp [behind])
      have notBlank : Text.isBlank c = false := solid c (by simp [longer])
      exact absurd (blank.symm.trans notBlank) (by decide)

namespace Word

theorem not_isBlank_of_isNameChar {c : Char} (inside : isNameChar c = true) :
    Text.isBlank c = false := by
  by_cases start : isNameStart c = true
  · exact not_isBlank_of_isNameStart start
  · simp only [isNameStart, Bool.or_eq_true, not_or] at start
    simp only [isNameChar, Char.isAlphanum, Bool.or_eq_true] at inside
    obtain (letter | digit) | line := inside
    · exact absurd letter start.1
    · exact not_isBlank_of_isDigit digit
    · exact absurd line start.2

theorem solid_of_isIdentifier {word : List Char} (isIdentifier : IsIdentifier word) :
    Solid word := by
  obtain ⟨c, rest, rfl, start, inside⟩ := isIdentifier
  exact List.forall_mem_cons.mpr
    ⟨not_isBlank_of_isNameStart start, fun d member => not_isBlank_of_isNameChar (inside d member)⟩

theorem solid_of_isNumber {word : List Char} (isNumber : IsNumber word) : Solid word := by
  obtain ⟨before, after, rfl, _, beforeDigits, afterDigits⟩ := isNumber
  have whole : Solid before := fun c member => not_isBlank_of_isDigit (beforeDigits c member)
  have fraction : Solid after := fun c member => not_isBlank_of_isDigit (afterDigits c member)
  unfold literalText
  split
  · rwa [List.append_nil]
  · exact List.forall_mem_append.mpr ⟨whole, List.forall_mem_cons.mpr ⟨by decide, fraction⟩⟩

theorem solid_of_isMark {word : List Char} (isMark : IsMark word) : Solid word := by
  obtain ⟨kind, known⟩ := isMark
  have inside : word.all (fun c => !Text.isBlank c) = true := by
    unfold mark? at known
    split at known <;> first | decide | simp at known
  intro c member
  simpa using List.all_eq_true.mp inside c member

theorem Munches.solid {text word : List Char} {kind : Kind} (munches : Munches text kind word) :
    Solid word := by
  cases munches with
  | identifier longest => exact solid_of_isIdentifier longest.shaped
  | number longest => exact solid_of_isNumber longest.shaped
  | mark _ _ longest _ => exact solid_of_isMark longest.shaped

/-- The longest word of a shape without blanks stays the longest where blanks follow the text. -/
theorem IsLongest.beforeBlank {shape : List Char → Prop} {text word rest : List Char}
    (solid : ∀ other, shape other → Solid other) (longest : IsLongest shape text word)
    (stops : BeginsBlank rest) : IsLongest shape (text ++ rest) word where
  front := longest.front.trans (List.prefix_append text rest)
  shaped := longest.shaped
  longest := fun other begins shaped =>
    longest.longest other ((solid other shaped).prefix_of_append begins stops) shaped

theorem Munches.beforeBlank {text word rest : List Char} {kind : Kind}
    (munches : Munches text kind word) (stops : BeginsBlank rest) :
    Munches (text ++ rest) kind word := by
  cases munches with
  | identifier longest =>
    exact .identifier (longest.beforeBlank (fun _ => solid_of_isIdentifier) stops)
  | number longest => exact .number (longest.beforeBlank (fun _ => solid_of_isNumber) stops)
  | mark noIdentifier noNumber longest known =>
    refine .mark (fun other begins shaped => ?_) (fun other begins shaped => ?_)
      (longest.beforeBlank (fun _ => solid_of_isMark) stops) known
    · exact noIdentifier other ((solid_of_isIdentifier shaped).prefix_of_append begins stops) shaped
    · exact noNumber other ((solid_of_isNumber shaped).prefix_of_append begins stops) shaped

theorem first?_beforeBlank (text : List Char) {rest : List Char} (stops : BeginsBlank rest) :
    first? (text ++ rest) = first? text := by
  cases found : first? text with
  | some word =>
    obtain ⟨kind, word⟩ := word
    exact first?_of_munches ((munches_of_first? found).beforeBlank stops)
  | none =>
    have absent := first?_eq_none_iff.mp found
    refine first?_eq_none_iff.mpr fun word begins => ⟨fun shaped => ?_, fun shaped => ?_,
      fun shaped => ?_⟩
    · have front := (solid_of_isIdentifier shaped).prefix_of_append begins stops
      exact (absent word front).1 shaped
    · have front := (solid_of_isNumber shaped).prefix_of_append begins stops
      exact (absent word front).2.1 shaped
    · have front := (solid_of_isMark shaped).prefix_of_append begins stops
      exact (absent word front).2.2 shaped

end Word

/-! ## Texts with the same tokens -/

def Token.unplaced (token : Token) : Token := { token with place := .start }

/-- A text is the tokens written apart: their texts in order, each after its gap, and a last gap.
The gaps are blank, and only the first and the last of them may be empty. -/
structure Spacing (tokens : List Token) (text : List Char) (pieces : List Piece)
    (last : List Char) : Prop where
  written : text = pieces.flatMap Piece.chars ++ last
  tokens : pieces.map Piece.token = tokens
  gaps : ∀ piece ∈ pieces, ∀ c ∈ piece.gap, Text.isBlank c = true
  lastGap : ∀ c ∈ last, Text.isBlank c = true
  apart : ∀ piece ∈ pieces.tail, piece.gap ≠ []

theorem beginsBlank_chars {pieces : List Piece} {last : List Char}
    (gaps : ∀ piece ∈ pieces, ∀ c ∈ piece.gap, Text.isBlank c = true)
    (lastGap : ∀ c ∈ last, Text.isBlank c = true) (apart : ∀ piece ∈ pieces, piece.gap ≠ []) :
    BeginsBlank (pieces.flatMap Piece.chars ++ last) := by
  cases pieces with
  | nil => exact beginsBlank_of_blank lastGap
  | cons piece pieces =>
    cases gap : piece.gap with
    | nil => exact absurd gap (apart piece (by simp))
    | cons c more =>
      have blank : Text.isBlank c = true := gaps piece (by simp) c (by simp [gap])
      have front : ((piece :: pieces).flatMap Piece.chars ++ last).head? = some c := by
        simp [Piece.chars, gap]
      intro d first
      rw [front] at first
      rwa [← Option.some.inj first]

theorem exists_layout_of_spaced {pieces : List Piece} {last : List Char} (behind : List Char)
    (words : ∀ piece ∈ pieces, ∃ ahead,
      Word.Munches ahead piece.token.kind piece.token.text.toList)
    (gaps : ∀ piece ∈ pieces, ∀ c ∈ piece.gap, Text.isBlank c = true)
    (lastGap : ∀ c ∈ last, Text.isBlank c = true)
    (apart : ∀ piece ∈ pieces.tail, piece.gap ≠ []) :
    ∃ placed, Layout behind (pieces.flatMap Piece.chars ++ last) placed last ∧
      (placed.map Piece.token).map Token.unplaced =
        (pieces.map Piece.token).map Token.unplaced := by
  induction pieces generalizing behind with
  | nil => exact ⟨[], layout_nil lastGap, rfl⟩
  | cons piece pieces ih =>
    obtain ⟨⟨ahead, munches⟩, moreWords⟩ := List.forall_mem_cons.mp words
    obtain ⟨gap, moreGaps⟩ := List.forall_mem_cons.mp gaps
    obtain ⟨placed, layout, same⟩ := ih (behind ++ piece.chars) moreWords moreGaps
      (fun piece member => apart piece (List.mem_of_mem_tail member))
    have stops : BeginsBlank (pieces.flatMap Piece.chars ++ last) :=
      beginsBlank_chars moreGaps lastGap apart
    let token : Token := { piece.token with place := Place.start.after (behind ++ piece.gap) }
    have stands : token.StandsBetween (behind ++ piece.gap)
        (token.text.toList ++ (pieces.flatMap Piece.chars ++ last)) :=
      Token.standsBetween_iff.mpr
        ⟨(munches.within (List.prefix_refl _) munches.front).beforeBlank stops, rfl⟩
    refine ⟨⟨piece.gap, token⟩ :: placed, ?_, ?_⟩
    · have whole : Layout behind ((Piece.mk piece.gap token).chars ++
          (pieces.flatMap Piece.chars ++ last)) (⟨piece.gap, token⟩ :: placed) last :=
        Layout.cons layout gap stands
      simpa [Piece.chars, token] using whole
    · simp only [List.map_cons, same]
      rfl

theorem exists_tokenize_of_spacing {text other : String} {tokens : List Token}
    {pieces : List Piece} {last : List Char} (lexed : tokenize text = .ok tokens)
    (spacing : Spacing tokens other.toList pieces last) :
    ∃ again, tokenize other = .ok again ∧
      again.map Token.unplaced = tokens.map Token.unplaced := by
  have words : ∀ piece ∈ pieces, ∃ ahead,
      Word.Munches ahead piece.token.kind piece.token.text.toList := by
    obtain ⟨placed, _, named, layout⟩ := tokenize_eq_ok_iff_layout.mp lexed
    intro piece member
    have isToken : piece.token ∈ tokens := spacing.tokens ▸ List.mem_map_of_mem member
    rw [named] at isToken
    obtain ⟨original, among, same⟩ := List.mem_map.mp isToken
    obtain ⟨before, after, split⟩ := List.append_of_mem among
    have stands := layout.stands before original after split
    rw [same] at stands
    exact ⟨_, stands.munches⟩
  obtain ⟨placed, layout, same⟩ :=
    exists_layout_of_spaced [] words spacing.gaps spacing.lastGap spacing.apart
  refine ⟨placed.map Piece.token, tokenize_eq_ok_iff_layout.mpr ⟨placed, last, rfl, ?_⟩, ?_⟩
  · rw [spacing.written]
    exact layout
  · rw [same, spacing.tokens]

end Funlet
