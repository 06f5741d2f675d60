import Funlet.Data.Basic
import Funlet.Host
import Funlet.Number.Index

/-!
# JSON text

A value as a JSON document in ASCII, on one line or indented.
-/

set_option autoImplicit false

namespace Funlet

inductive JsonError where
  /-- A number is not finite; it is shown only by an indented layout. -/
  | outOfRange (value : Binary64) (shown : Bool)
  | tooManyDigits
  /-- The width of the indentation is no index. -/
  | indentUnfit
  /-- The indentation is too wide to be built. -/
  | indentTooWide
  deriving DecidableEq

def JsonError.message : JsonError → String
  | .outOfRange value shown =>
    "Out of range float values are not JSON compliant" ++
      if shown then ": " ++ value.text else ""
  | .tooManyDigits => TooManyDigits.message {}
  | .indentUnfit => Index.refusal
  | .indentTooWide => ""

namespace Json

def unitEscape (unit : Nat) : List Char := '\\' :: 'u' :: Digits.hex 4 unit

/-- How a code point stands in a JSON string: one outside the visible part of ASCII is written by
letter or by number, and one above U+FFFF as two surrogates. -/
def escapedCode (code : Nat) : List Char :=
  if code = 34 ∨ code = 92 then ['\\', Char.ofNat code]
  else if code = 10 then ['\\', 'n']
  else if code = 13 then ['\\', 'r']
  else if code = 9 then ['\\', 't']
  else if code = 8 then ['\\', 'b']
  else if code = 12 then ['\\', 'f']
  else if 32 ≤ code ∧ code < 127 then [Char.ofNat code]
  else if code < 0x10000 then unitEscape code
  else
    unitEscape (0xd800 + (code - 0x10000) / 0x400) ++
      unitEscape (0xdc00 + (code - 0x10000) % 0x400)

def string {Text : Type} [Wording Text] (text : Text) : String :=
  String.ofList ('"' :: (Wording.codes text).flatMap escapedCode ++ ['"'])

/-- What stands between an opening bracket and the first item at a depth: nothing on one line, else
a line break and the indentation, which is empty for a negative width. -/
def lineBreak (indent : Option Int) (depth : Nat) : String :=
  match indent with
  | none => ""
  | some width => String.ofList ('\n' :: List.replicate (width.toNat * depth) ' ')

def separator (indent : Option Int) (depth : Nat) : String :=
  match indent with
  | none => ", "
  | some _ => "," ++ lineBreak indent depth

def enclose (indent : Option Int) (depth : Nat) (opening closing : String) :
    List String → String
  | [] => opening ++ closing
  | items =>
    opening ++ lineBreak indent (depth + 1) ++
      (separator indent (depth + 1)).intercalate items ++
      lineBreak indent depth ++ closing

def integer (value : Int) : Except JsonError String :=
  match Data.integerText value with
  | .ok text => .ok text
  | .error _ => .error .tooManyDigits

section Write

variable {Text : Type} [Wording Text]

mutual

def write (indent : Option Int) (depth : Nat) : Data Text → Except JsonError String
  | .null => .ok "null"
  | .bool value => .ok (if value then "true" else "false")
  | .int value => integer value
  | .float value =>
    if value.isFinite then .ok value.text else .error (.outOfRange value indent.isSome)
  | .text value => .ok (string value)
  | .list items => do
    let parts ← writeItems indent (depth + 1) items
    return enclose indent depth "[" "]" parts
  | .map entries => do
    let parts ← writeEntries indent (depth + 1) entries
    return enclose indent depth "\x7b" "\x7d" parts

def writeItems (indent : Option Int) (depth : Nat) :
    List (Data Text) → Except JsonError (List String)
  | [] => .ok []
  | item :: rest => do
    let part ← write indent depth item
    let parts ← writeItems indent depth rest
    return part :: parts

def writeEntries (indent : Option Int) (depth : Nat) :
    List (Text × Data Text) → Except JsonError (List String)
  | [] => .ok []
  | (key, value) :: rest => do
    let part ← write indent depth value
    let parts ← writeEntries indent depth rest
    return (string key ++ ": " ++ part) :: parts

end

end Write

def checkIndent [Host] : Option Int → Except JsonError Unit
  | none => .ok ()
  | some width =>
    if !Index.fits width then .error .indentUnfit
    else if Host.maxIndent < width then .error .indentTooWide
    else .ok ()

end Json

/-- The JSON text of a value: on one line without an indentation, else with one item to a line.  The
indentation is built before anything is written. -/
def Data.json [Host] {Text : Type} [Wording Text] (indent : Option Int) (data : Data Text) :
    Except JsonError String :=
  match Json.checkIndent indent with
  | .ok _ => Json.write indent 0 data
  | .error error => .error error

end Funlet
