import Funlet.Number.Binary64
import Funlet.Number.Digits

/-!
# Decimal fractions

A coefficient and a power of ten, the size nearest to them, and the shortest decimal that is
nearest to a size and is read back as that size.
-/

set_option autoImplicit false

namespace Funlet

/-- The size `coefficient * 10 ^ exponent`. -/
structure Decimal where
  coefficient : Nat
  exponent : Int
  deriving DecidableEq, Inhabited

namespace Decimal

def nearest (d : Decimal) : Option Magnitude :=
  Magnitude.nearest (d.coefficient * power 10 d.exponent.toNat) (power 10 (-d.exponent).toNat)

def trim (d : Decimal) : Decimal :=
  if _ : 0 < d.coefficient ∧ d.coefficient % 10 = 0 then
    trim ⟨d.coefficient / 10, d.exponent + 1⟩
  else d
termination_by d.coefficient
decreasing_by omega

end Decimal

namespace Magnitude

/-- A positive size as a quotient in which one unit of the grid is `10 ^ exponent`. -/
def onGrid (size : Magnitude) (exponent : Int) : Nat × Nat :=
  (size.units * power 10 (-exponent).toNat, power 2 1074 * power 10 exponent.toNat)

/-- The exponent of the first digit of a positive size. -/
def leading (size : Magnitude) : Int :=
  if size.whole = 0 then -((Digits.ofNat 10 (power 2 1074 / size.units)).length : Int)
  else (Digits.ofNat 10 size.whole).length - 1

/-- The two neighbours of a size on a decimal grid, the nearer first and on a tie the even one. -/
def neighbours (size : Magnitude) (exponent : Int) : List Decimal :=
  let grid := size.onGrid exponent
  let lower := grid.1 / grid.2
  let twice := 2 * (grid.1 % grid.2)
  if twice < grid.2 ∨ (twice = grid.2 ∧ lower % 2 = 0) then
    [⟨lower, exponent⟩, ⟨lower + 1, exponent⟩]
  else [⟨lower + 1, exponent⟩, ⟨lower, exponent⟩]

def withDigits (size : Magnitude) (count : Nat) : Option Decimal :=
  (size.neighbours (size.leading + 1 - count)).find? fun d => d.nearest == some size

def exact (size : Magnitude) : Decimal :=
  ⟨size.units * power 5 1074, -1074⟩

/-- The shortest decimal that is read back as the size, of several the nearest.  Seventeen digits
are always enough; the exact decimal stands for a search that finds none. -/
def shortest (size : Magnitude) : Decimal :=
  (((List.range 17).findSome? fun fewer => size.withDigits (fewer + 1)).getD size.exact).trim

end Magnitude

end Funlet
