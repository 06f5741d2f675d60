/-!
# Indices

Distances and repetition counts are integers of 64 bits with a sign.
-/

set_option autoImplicit false

namespace Funlet.Index

def bound : Int := 9223372036854775808

/-- Whether an integer has 64 bits with its sign. -/
def fits (n : Int) : Bool :=
  decide (-bound ≤ n ∧ n < bound)

def refusal : String := "cannot fit 'int' into an index-sized integer"

end Funlet.Index
