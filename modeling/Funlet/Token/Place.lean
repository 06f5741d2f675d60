/-!
# Places in a text

A place is a line and a column.  In a text both are counted from one, and only a line feed begins a
new line; a token made by hand may name any place.
-/

set_option autoImplicit false

namespace Funlet

structure Place where
  line : Int
  column : Int
  deriving DecidableEq, Inhabited

namespace Place

def start : Place := ⟨1, 1⟩

def step (place : Place) (c : Char) : Place :=
  if c = '\n' then ⟨place.line + 1, 1⟩ else ⟨place.line, place.column + 1⟩

def after (place : Place) (text : List Char) : Place :=
  text.foldl step place

@[simp]
theorem after_nil (place : Place) : place.after [] = place := rfl

@[simp]
theorem after_cons (place : Place) (c : Char) (text : List Char) :
    place.after (c :: text) = (place.step c).after text := rfl

@[simp]
theorem after_append (place : Place) (first second : List Char) :
    place.after (first ++ second) = (place.after first).after second := by
  simp [after]

end Place

end Funlet
