/-!
# Written whole numbers

The digits of a natural number in a base up to sixteen, and the value of a string of decimal
digits.
-/

set_option autoImplicit false

namespace Funlet.Digits

def symbol (digit : Nat) : Char :=
  if digit < 10 then Char.ofNat (48 + digit) else Char.ofNat (87 + digit)

/-- The digits of `n` in the given base, the highest first and without leading zeros. -/
def ofNat (base n : Nat) : List Char :=
  if _ : 1 < base ∧ base ≤ n then ofNat base (n / base) ++ [symbol (n % base)] else [symbol n]
termination_by n
decreasing_by exact Nat.div_lt_self (by omega) (by omega)

def hex (width n : Nat) : List Char :=
  let digits := ofNat 16 n
  List.replicate (width - digits.length) '0' ++ digits

def decimal (n : Nat) : String :=
  String.ofList (ofNat 10 n)

def signed : Int → String
  | .ofNat n => decimal n
  | .negSucc n => "-" ++ decimal (n + 1)

def value (digits : List Char) : Nat :=
  digits.foldl (fun total c => total * 10 + (c.toNat - 48)) 0

end Funlet.Digits
