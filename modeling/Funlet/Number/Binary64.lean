import Funlet.Number.Power

/-!
# Binary floating-point numbers

A number of the binary64 format is held exactly.  The size of a finite one is a natural number of
units of 2^-1074, the smallest positive size of the format; every size of the format is such a
multiple.  A quotient of natural numbers is rounded to the nearest size, a tie going to the even
significand.  No machine arithmetic is involved, so reading and writing a number are functions on
natural numbers.
-/

set_option autoImplicit false

namespace Funlet

/-- The number of units in 2^1024, from which on sizes are infinite. -/
def unitLimit : Nat := power 2 2098

theorem unitLimit_pos : 0 < unitLimit := power_pos (by decide) _

/-- A size of the binary64 format: at most 53 significant bits, below 2^1024. -/
structure Magnitude where
  /-- The size as a multiple of 2^-1074. -/
  units : Nat
  below : units < unitLimit
  significant :
    ∃ significand shift : Nat, significand < power 2 53 ∧ units = significand * power 2 shift
  deriving DecidableEq

namespace Magnitude

def zero : Magnitude where
  units := 0
  below := unitLimit_pos
  significant := ⟨0, 0, power_pos (by decide) _, by simp⟩

instance : Inhabited Magnitude := ⟨zero⟩

/-- The quotient rounded to a natural number, a tie going to the even one. -/
def evenQuotient (dividend divisor : Nat) : Nat :=
  let quotient := dividend / divisor
  let twice := 2 * (dividend % divisor)
  if twice > divisor ∨ (twice = divisor ∧ quotient % 2 = 1) then quotient + 1 else quotient

theorem evenQuotient_le (dividend divisor : Nat) :
    evenQuotient dividend divisor ≤ dividend / divisor + 1 := by
  unfold evenQuotient
  simp only
  split <;> omega

/-- The number of bits by which a number of units exceeds the 53 that a size has. -/
def excessBits (units : Nat) : Nat :=
  units.log2 - 52

theorem div_excessBits_lt (units : Nat) :
    units / power 2 (excessBits units) < power 2 53 := by
  have upper : units < power 2 (units.log2 + 1) := Nat.lt_log2_self
  have covers : power 2 (units.log2 + 1) ≤ power 2 (excessBits units) * power 2 53 := by
    rw [← power_add]
    apply power_le_power (by decide)
    unfold excessBits
    omega
  exact Nat.div_lt_of_lt_mul (by omega)

/-- The size nearest to a quotient of natural numbers, a tie going to the even significand; none
where that size is not below 2^1024. -/
def nearest (dividend divisor : Nat) : Option Magnitude :=
  let scaled := dividend * power 2 1074
  let shift := excessBits (scaled / divisor)
  let significand := evenQuotient scaled (divisor * power 2 shift)
  if below : significand * power 2 shift < unitLimit then
    some ⟨significand * power 2 shift, below, by
      have rounded : significand ≤ scaled / divisor / power 2 shift + 1 := by
        rw [Nat.div_div_eq_div_mul]
        exact evenQuotient_le scaled (divisor * power 2 shift)
      have short : scaled / divisor / power 2 shift < power 2 53 := div_excessBits_lt _
      by_cases carry : significand = power 2 53
      · exact ⟨1, 53 + shift, by decide, by rw [carry, power_add, Nat.one_mul]⟩
      · exact ⟨significand, shift, by omega, rfl⟩⟩
  else none

def isWhole (size : Magnitude) : Bool :=
  size.units % power 2 1074 == 0

def whole (size : Magnitude) : Nat :=
  size.units / power 2 1074

end Magnitude

inductive Binary64 where
  | finite (negative : Bool) (size : Magnitude)
  | infinite (negative : Bool)
  | nan
  deriving DecidableEq, Inhabited

namespace Binary64

def isFinite : Binary64 → Bool
  | .finite _ _ => true
  | _ => false

def isInfinite : Binary64 → Bool
  | .infinite _ => true
  | _ => false

/-- Equality of values: the two zeros are equal, and an undefined number equals nothing. -/
def same : Binary64 → Binary64 → Bool
  | .finite negative size, .finite negative' size' =>
    size.units == size'.units && (negative == negative' || size.units == 0)
  | .infinite negative, .infinite negative' => negative == negative'
  | _, _ => false

def ofSize (negative : Bool) : Option Magnitude → Binary64
  | some size => .finite negative size
  | none => .infinite negative

def ofInt (n : Int) : Binary64 :=
  ofSize (decide (n < 0)) (Magnitude.nearest n.natAbs 1)

end Binary64

end Funlet
