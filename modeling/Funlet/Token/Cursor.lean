import Funlet.Token.Word

/-!
# Reading tokens from a text

A cursor stands in a text, with the characters already read behind it and the others ahead of it.
Its place follows from what lies behind.  Moving it over a word is the only way it changes, so it
never moves back and never leaves the text.
-/

set_option autoImplicit false

namespace Funlet

structure Cursor where
  /-- The characters read so far, the nearest first. -/
  behind : List Char
  ahead : List Char
  /-- The place of the first character ahead. -/
  place : Place
  deriving DecidableEq, Inhabited

structure StrayCharacter where
  position : Nat
  place : Place
  char : Char
  deriving DecidableEq

def StrayCharacter.message (stray : StrayCharacter) : String :=
  "Unexpected character " ++ Text.quoted (String.singleton stray.char) ++
    " at line " ++ Digits.signed stray.place.line ++
    ", col " ++ Digits.signed stray.place.column

structure PastEnd where
  position : Nat
  line : Int
  deriving DecidableEq

def PastEnd.message (fault : PastEnd) : String :=
  "CharacterStreamError: Attempted to read past end of source at position=<" ++
    Digits.decimal fault.position ++ ">, line=<" ++ Digits.signed fault.line ++ ">"

inductive Reading where
  | token (token : Token) (after : Cursor)
  | finished (after : Cursor)
  /-- A character that begins no token stands ahead. -/
  | stuck (stray : StrayCharacter) (after : Cursor)

namespace Cursor

def ofText (text : String) : Cursor := ⟨[], text.toList, .start⟩

def position (cursor : Cursor) : Nat := cursor.behind.length

def atEnd (cursor : Cursor) : Bool := cursor.ahead.isEmpty

def past (cursor : Cursor) (word : List Char) : Cursor where
  behind := word.reverse ++ cursor.behind
  ahead := cursor.ahead.drop word.length
  place := cursor.place.after word

def next (cursor : Cursor) : Except PastEnd (Char × Cursor) :=
  match cursor.ahead with
  | c :: _ => .ok (c, cursor.past [c])
  | [] => .error ⟨cursor.position, cursor.place.line⟩

/-- The character at a distance from the cursor, counted from the first character ahead and
backwards if it is negative; none outside the text. -/
def peek (cursor : Cursor) : (distance : Int) → Option Char
  | .ofNat n => cursor.ahead[n]?
  | .negSucc n => cursor.behind[n]?

def skipBlanks (cursor : Cursor) : Cursor :=
  cursor.past (cursor.ahead.takeWhile Text.isBlank)

def take (cursor : Cursor) (kind : Kind) (word : List Char) : Token × Cursor :=
  (⟨kind, String.ofList word, cursor.place⟩, cursor.past word)

def readName (cursor : Cursor) : Token × Cursor :=
  let word := Word.name cursor.ahead
  cursor.take (Word.nameKind word) word

/-- Reads the number ahead, which may be empty or begin with a point. -/
def readNumber (cursor : Cursor) : Token × Cursor :=
  cursor.take .number (Word.number cursor.ahead)

def readMark (cursor : Cursor) : Option (Token × Cursor) :=
  match Word.mark cursor.ahead with
  | some (kind, word) => some (cursor.take kind word)
  | none => none

def read (cursor : Cursor) : Reading :=
  let start := cursor.skipBlanks
  match start.ahead with
  | [] => .finished start
  | c :: _ =>
    match Word.first? start.ahead with
    | some (kind, word) =>
      let (token, after) := start.take kind word
      .token token after
    | none => .stuck ⟨start.position, start.place, c⟩ start

theorem length_ahead_past (cursor : Cursor) (word : List Char) :
    (cursor.past word).ahead.length = cursor.ahead.length - word.length := by
  simp [past]

theorem length_ahead_of_read {cursor after : Cursor} {token : Token}
    (reading : cursor.read = .token token after) :
    after.ahead.length < cursor.ahead.length := by
  unfold read at reading
  simp only at reading
  split at reading
  · simp at reading
  · rename_i c rest front
    split at reading
    · rename_i kind word found
      simp only [take, Reading.token.injEq] at reading
      have filled := Word.ne_nil_of_first? found
      have start : cursor.skipBlanks.ahead.length ≤ cursor.ahead.length := by
        simp only [skipBlanks, length_ahead_past]
        omega
      have some_ahead : 0 < cursor.skipBlanks.ahead.length := by simp [front]
      have some_word : 0 < word.length := List.length_pos_iff.mpr filled
      rw [← reading.2, length_ahead_past]
      omega
    · simp at reading

def readAll (cursor : Cursor) : Except StrayCharacter (List Token) × Cursor :=
  match _ : cursor.read with
  | .finished after => (.ok [], after)
  | .stuck stray after => (.error stray, after)
  | .token token after =>
    match readAll after with
    | (.ok tokens, last) => (.ok (token :: tokens), last)
    | (.error stray, last) => (.error stray, last)
termination_by cursor.ahead.length
decreasing_by
  rename_i reading
  exact length_ahead_of_read reading

end Cursor

/-- The tokens of a text, without one for its end. -/
def tokenize (text : String) : Except StrayCharacter (List Token) :=
  (Cursor.ofText text).readAll.1

end Funlet
