import Funlet.Number.Digits
import Funlet.Text.Printable

/-!
# Quoted text

A text is shown in a message between quotes, so that its ends and its invisible characters can
be seen.  Single quotes are used unless the text holds a single quote and no double quote.
-/

set_option autoImplicit false

namespace Funlet.Text

def quoteFor (text : List Char) : Char :=
  if text.contains '\'' && !text.contains '"' then '"' else '\''

/-- How a character stands between quotes of the given kind: the quote and the backslash after a
backslash, line breaks and tabs by letter, other characters without a printed form by number. -/
def quotedChar (quote c : Char) : List Char :=
  if c == quote || c == '\\' then ['\\', c]
  else if c == '\n' then ['\\', 'n']
  else if c == '\r' then ['\\', 'r']
  else if c == '\t' then ['\\', 't']
  else if isPrintable c then [c]
  else if c.toNat < 0x100 then '\\' :: 'x' :: Digits.hex 2 c.toNat
  else if c.toNat < 0x10000 then '\\' :: 'u' :: Digits.hex 4 c.toNat
  else '\\' :: 'U' :: Digits.hex 8 c.toNat

def quoted (text : String) : String :=
  let quote := quoteFor text.toList
  String.ofList (quote :: text.toList.flatMap (quotedChar quote) ++ [quote])

end Funlet.Text
