import Funlet.Number.Numeral
import Funlet.Text.CodePoints

/-!
# Plain data

The values that documents are made of, and the spelling under which a message shows one.  A value
that is nested deeper than the host bears has no spelling.
-/

set_option autoImplicit false

namespace Funlet

/-- A plain value.  The entries of a map keep their order. -/
inductive Data (Text : Type := String) where
  | null
  | bool (value : Bool)
  | int (value : Int)
  | float (value : Binary64)
  | text (value : Text)
  | list (items : List (Data Text))
  | map (entries : List (Text × Data Text))
  deriving Inhabited

structure TooManyDigits where
  deriving DecidableEq

def TooManyDigits.message (_ : TooManyDigits) : String :=
  "Exceeds the limit (4300 digits) for integer string conversion; " ++
    "use sys.set_int_max_str_digits() to increase the limit"

structure TooNested where
  deriving DecidableEq

inductive SpellError where
  | tooManyDigits (limit : TooManyDigits)
  | tooNested (limit : TooNested)
  deriving DecidableEq

namespace Data

variable {Text : Type}

def typeName : Data Text → String
  | .null => "NoneType"
  | .bool _ => "bool"
  | .int _ => "int"
  | .float _ => "float"
  | .text _ => "str"
  | .list _ => "list"
  | .map _ => "dict"

section Entries

variable [DecidableEq Text]

def held? (entries : List (Text × Data Text)) (key : Text) : Option (Data Text) :=
  match entries.find? (fun entry => entry.1 == key) with
  | some entry => some entry.2
  | none => none

def entry? [Wording Text] (entries : List (Text × Data Text)) (key : String) :
    Option (Data Text) :=
  held? entries (Wording.ofString key)

variable (key : Text) (value : Data Text) (rest : List (Text × Data Text))

theorem held?_cons (wanted : Text) :
    held? ((key, value) :: rest) wanted =
      if key = wanted then some value else held? rest wanted := by
  unfold held?
  by_cases here : key = wanted <;> simp [here]

theorem entry?_cons [Wording Text] (wanted : String) :
    entry? ((key, value) :: rest) wanted =
      if key = Wording.ofString wanted then some value else entry? rest wanted :=
  held?_cons key value rest (Wording.ofString wanted)

end Entries

def integerText (n : Int) : Except TooManyDigits String :=
  if power 10 Numeral.maxIntegerDigits ≤ n.natAbs then .error {} else .ok (Digits.signed n)

def integerSpelling (n : Int) : Except SpellError String :=
  match integerText n with
  | .ok digits => .ok digits
  | .error limit => .error (.tooManyDigits limit)

variable [Wording Text]

mutual

/-- The spelling of a value that is nested at most so many levels. -/
def spell : (levels : Nat) → Data Text → Except SpellError String
  | 0, _ => .error (.tooNested {})
  | _ + 1, .null => .ok "None"
  | _ + 1, .bool value => .ok (if value then "True" else "False")
  | _ + 1, .int value => integerSpelling value
  | _ + 1, .float value => .ok value.text
  | _ + 1, .text value => .ok (Wording.quoted value)
  | levels + 1, .list items => do
    let parts ← spellItems levels items
    return "[" ++ ", ".intercalate parts ++ "]"
  | levels + 1, .map entries => do
    let parts ← spellEntries levels entries
    return "\x7b" ++ ", ".intercalate parts ++ "\x7d"

def spellItems (levels : Nat) : List (Data Text) → Except SpellError (List String)
  | [] => .ok []
  | item :: rest => do
    let part ← spell levels item
    let parts ← spellItems levels rest
    return part :: parts

def spellEntries (levels : Nat) : List (Text × Data Text) → Except SpellError (List String)
  | [] => .ok []
  | (key, value) :: rest => do
    let part ← spell levels value
    let parts ← spellEntries levels rest
    return (Wording.quoted key ++ ": " ++ part) :: parts

end

end Data

end Funlet
