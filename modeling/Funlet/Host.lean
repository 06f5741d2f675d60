/-!
# The host

What an answer of the program takes from the machine that runs it.  Results are stated for every
host.
-/

set_option autoImplicit false

namespace Funlet

class Host where
  /-- The widest indentation with which a document fits into the memory. -/
  maxIndent : Int
  /-- The nesting up to which a value can be spelled that stands in a record at the deepest level.
  Every level of a record takes a call of its own, and so does every level of a value. -/
  maxNesting : Nat

/-- A host with room for a terabyte and 756 calls, of which the record of a tree may take 256. -/
instance Host.usual : Host := ⟨1099511627775, 500⟩

end Funlet
