import Funlet.Number.Decimal
import Funlet.Text.Blank
import Funlet.Text.Digit

/-!
# Numerals

How numbers are written and read.  A number is written with the fewest digits that read back:
positionally while the exponent of its first digit lies between -4 and 15, otherwise with an
exponent of at least two digits.  A reader accepts more than a writer produces: blanks at the ends,
digits of any script, single underscores between digits, and for fractions a sign, an exponent and
the names of the numbers that are not finite.
-/

set_option autoImplicit false

namespace Funlet

namespace Decimal

/-- The digits of a decimal and the place of its point, counted from before the first digit. -/
def digitsAndPoint (d : Decimal) : List Char × Int :=
  let digits := Digits.ofNat 10 d.coefficient
  (digits, digits.length + d.exponent)

/-- A decimal without an exponent: zeros are filled in up to the point, and the point is left out
where no digit follows it. -/
def positional (d : Decimal) : List Char :=
  let (digits, point) := d.digitsAndPoint
  if point ≤ 0 then '0' :: '.' :: List.replicate (-point).toNat '0' ++ digits
  else if digits.length ≤ point.toNat then
    digits ++ List.replicate (point.toNat - digits.length) '0'
  else digits.take point.toNat ++ '.' :: digits.drop point.toNat

def scientific (d : Decimal) : List Char :=
  let (digits, point) := d.digitsAndPoint
  let exponent := point - 1
  let mantissa :=
    match digits with
    | first :: second :: rest => first :: '.' :: second :: rest
    | few => few
  let power := Digits.ofNat 10 exponent.natAbs
  mantissa ++ 'e' :: (if exponent < 0 then '-' else '+') ::
    (List.replicate (2 - power.length) '0' ++ power)

end Decimal

namespace Magnitude

/-- The text of a size: the shortest digits, positional from 10^-4 on and below 10^16, where a
whole number ends in a point and a zero. -/
def text (size : Magnitude) : List Char :=
  if size.units = 0 then ['0', '.', '0']
  else
    let d := size.shortest
    let point := d.digitsAndPoint.2
    if -4 < point ∧ point ≤ 16 then
      if 0 ≤ d.exponent then d.positional ++ ['.', '0'] else d.positional
    else d.scientific

end Magnitude

namespace Binary64

def text : Binary64 → String
  | .finite negative size => String.ofList ((if negative then ['-'] else []) ++ size.text)
  | .infinite negative => if negative then "-inf" else "inf"
  | .nan => "nan"

end Binary64

inductive Numeral where
  | integer (n : Int)
  | real (x : Binary64)
  deriving DecidableEq, Inhabited

namespace Numeral

def toReal? : Numeral → Option Binary64
  | .real x => some x
  | .integer n => if (Binary64.ofInt n).isFinite then some (Binary64.ofInt n) else none

/-! ## Reading -/

def isEndBlank (c : Char) : Bool :=
  c == ' ' || decide (9 ≤ c.toNat) && decide (c.toNat ≤ 13)

/-- A character of a numeral in its plain form: a digit of another script becomes the ASCII digit,
and a blank outside ASCII a space. -/
def plainChar (c : Char) : Char :=
  if c.toNat < 128 then c
  else if Text.isBlank c then ' '
  else
    match Text.digitValue? c with
    | some digit => Digits.symbol digit
    | none => c

def plain (text : String) : List Char :=
  Text.trimmed isEndBlank (text.toList.map plainChar)

/-- The text without its underscores, if each of them stands between two digits. -/
def withoutUnderscores : (afterDigit : Bool) → List Char → Option (List Char)
  | _, [] => some []
  | afterDigit, '_' :: c :: rest =>
    if afterDigit && c.isDigit then
      (withoutUnderscores true rest).map (c :: ·)
    else none
  | _, ['_'] => none
  | _, c :: rest => (withoutUnderscores c.isDigit rest).map (c :: ·)

def signOf : List Char → Bool × List Char
  | '-' :: rest => (true, rest)
  | '+' :: rest => (false, rest)
  | rest => (false, rest)

def maxIntegerDigits : Nat := 4300

def readInteger? (text : String) : Option Int :=
  let (negative, body) := signOf (plain text)
  match withoutUnderscores false body with
  | none => none
  | some digits =>
    if digits.isEmpty || !digits.all Char.isDigit || decide (maxIntegerDigits < digits.length) then
      none
    else if negative then some (-(Digits.value digits : Int))
    else some (Digits.value digits)

def exponentOf? : List Char → Option Int
  | [] => some 0
  | letter :: rest =>
    if letter == 'e' || letter == 'E' then
      let (negative, digits) := signOf rest
      if digits.isEmpty || !digits.all Char.isDigit then none
      else if negative then some (-(Digits.value digits : Int))
      else some (Digits.value digits)
    else none

def splitFraction (text : List Char) : List Char × List Char × List Char :=
  let before := text.takeWhile Char.isDigit
  match text.dropWhile Char.isDigit with
  | '.' :: rest => (before, rest.takeWhile Char.isDigit, rest.dropWhile Char.isDigit)
  | rest => (before, [], rest)

/-- Reads an unsigned decimal fraction.  An exponent so large or so small that the result is
infinite or zero anyway is cut down, so that no power of ten is computed in vain. -/
def readFraction? (text : List Char) : Option Decimal :=
  let (before, after, rest) := splitFraction text
  let digits := before ++ after
  match exponentOf? rest with
  | none => none
  | some exponent =>
    if digits.isEmpty then none
    else
      let bound : Int := digits.length + 400
      some ⟨Digits.value digits, max (-bound) (min bound exponent) - after.length⟩

def readName? (text : List Char) : Option (Bool → Binary64) :=
  let name := String.ofList (text.map Char.toLower)
  if name = "inf" ∨ name = "infinity" then some .infinite
  else if name = "nan" then some fun _ => .nan
  else none

def readReal? (text : String) : Option Binary64 :=
  match withoutUnderscores false (plain text) with
  | none => none
  | some body =>
    let (negative, unsigned) := signOf body
    match readName? unsigned with
    | some number => some (number negative)
    | none =>
      match readFraction? unsigned with
      | some d => some (.ofSize negative d.nearest)
      | none => none

end Numeral

end Funlet
