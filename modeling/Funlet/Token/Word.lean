import Funlet.Text.Blank
import Funlet.Token.Basic

/-!
# Words

Which words the language has and which of them begins a text: a name or keyword, a number, or else
the longest mark of the table.  A word depends on the text alone and not on its place.
-/

set_option autoImplicit false

namespace Funlet.Word

def isNameStart (c : Char) : Bool :=
  c.isAlpha || c == '_'

def isNameChar (c : Char) : Bool :=
  c.isAlphanum || c == '_'

def keyword? : List Char → Option Kind
  | ['l', 'e', 't'] => some .letWord
  | ['i', 'n'] => some .inWord
  | ['i', 'f'] => some .ifWord
  | ['t', 'h', 'e', 'n'] => some .thenWord
  | ['e', 'l', 's', 'e'] => some .elseWord
  | ['l', 'a', 'm', 'b', 'd', 'a'] => some .lambda
  | ['f', 'u', 'n'] => some .lambda
  | _ => none

def mark? : List Char → Option Kind
  | ['('] => some .leftParen
  | [')'] => some .rightParen
  | [';'] => some .semicolon
  | ['-', '>'] => some .arrow
  | ['=', '='] => some .operator
  | ['!', '='] => some .operator
  | ['<', '='] => some .operator
  | ['>', '='] => some .operator
  | ['+'] => some .operator
  | ['-'] => some .operator
  | ['*'] => some .operator
  | ['/'] => some .operator
  | ['='] => some .operator
  | ['<'] => some .operator
  | ['>'] => some .operator
  | _ => none

/-- The characters of a name at the front of a text; none where no name begins. -/
def name (text : List Char) : List Char :=
  text.takeWhile isNameChar

def nameKind (word : List Char) : Kind :=
  (keyword? word).getD .name

/-- The number at the front of a text: digits, and a point with digits if a digit follows the
point. -/
def number (text : List Char) : List Char :=
  text.takeWhile Char.isDigit ++
    match text.dropWhile Char.isDigit with
    | '.' :: rest =>
      if rest.takeWhile Char.isDigit = [] then [] else '.' :: rest.takeWhile Char.isDigit
    | _ => []

def mark (text : List Char) : Option (Kind × List Char) :=
  match mark? (text.take 2) with
  | some kind => some (kind, text.take 2)
  | none =>
    match mark? (text.take 1) with
    | some kind => some (kind, text.take 1)
    | none => none

def first? (text : List Char) : Option (Kind × List Char) :=
  match text with
  | [] => none
  | c :: _ =>
    if isNameStart c then some (nameKind (name text), name text)
    else if c.isDigit then some (.number, number text)
    else mark text

def isName (text : List Char) : Bool :=
  match text with
  | [] => false
  | c :: _ => isNameStart c && text.all isNameChar && (keyword? text).isNone

theorem mark?_nil : mark? [] = none := rfl

theorem mark_ne_nil {text word : List Char} {kind : Kind} (found : mark text = some (kind, word)) :
    word ≠ [] := by
  intro empty
  subst empty
  unfold mark at found
  split at found
  · rename_i kind' hit
    simp only [Option.some.injEq, Prod.mk.injEq] at found
    simp [found.2, mark?_nil] at hit
  · split at found
    · rename_i kind' hit
      simp only [Option.some.injEq, Prod.mk.injEq] at found
      simp [found.2, mark?_nil] at hit
    · simp at found

theorem ne_nil_of_first? {text word : List Char} {kind : Kind}
    (found : first? text = some (kind, word)) : word ≠ [] := by
  cases text with
  | nil => simp [first?] at found
  | cons c rest =>
    simp only [first?] at found
    split at found
    · rename_i start
      simp only [Option.some.injEq, Prod.mk.injEq] at found
      have : isNameChar c = true := by
        simp only [isNameStart, Bool.or_eq_true] at start
        simp only [isNameChar, Char.isAlphanum, Bool.or_eq_true]
        rcases start with alpha | low
        · exact Or.inl (Or.inl alpha)
        · exact Or.inr low
      rw [← found.2]
      simp [name, this]
    · split at found
      · rename_i digit
        simp only [Option.some.injEq, Prod.mk.injEq] at found
        rw [← found.2]
        simp [number, digit]
      · exact mark_ne_nil found

end Funlet.Word
