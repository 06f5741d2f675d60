/-!
# Blank characters

The characters that separate words without being part of one, and the text left when they are
taken off both ends.
-/

set_option autoImplicit false

namespace Funlet.Text

/-- The white space of the Unicode standard together with the four separators U+001C to U+001F. -/
def isBlank (c : Char) : Bool :=
  let n := c.toNat
  decide (9 ≤ n) && decide (n ≤ 13) || decide (28 ≤ n) && decide (n ≤ 32) ||
    n == 0x85 || n == 0xa0 || n == 0x1680 ||
    decide (0x2000 ≤ n) && decide (n ≤ 0x200a) ||
    n == 0x2028 || n == 0x2029 || n == 0x202f || n == 0x205f || n == 0x3000

def trimmed (p : Char → Bool) (text : List Char) : List Char :=
  ((text.dropWhile p).reverse.dropWhile p).reverse

def strip (text : String) : String :=
  String.ofList (trimmed isBlank text.toList)

end Funlet.Text
