/-!
# Powers of natural numbers

The one power function of the library, with the laws that its definitions rest on.
-/

set_option autoImplicit false

namespace Funlet

def power (base exponent : Nat) : Nat :=
  Nat.pow base exponent

theorem power_pos {base : Nat} (positive : 0 < base) (exponent : Nat) :
    0 < power base exponent :=
  Nat.pow_pos positive

theorem power_add (base first second : Nat) :
    power base (first + second) = power base first * power base second :=
  Nat.pow_add base first second

theorem power_le_power {base first second : Nat} (positive : 0 < base) (le : first ≤ second) :
    power base first ≤ power base second :=
  Nat.pow_le_pow_right positive le

end Funlet
