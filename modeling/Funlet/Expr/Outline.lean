import Funlet.Expr.Source

/-!
# Outlines and text trees

An outline keeps of a tree what a drawing shows: for each node a kind, one detail and the outlines
of the subtrees.  The text tree draws an outline with one labelled line for each node.
-/

set_option autoImplicit false

namespace Funlet

inductive Detail where
  | none
  | value (x : Binary64)
  | name (text : String)
  | operator (text : String)
  | parameter (text : String)
  | bound (text : String)
  deriving DecidableEq

inductive Outline where
  | entry (kind : String) (detail : Detail) (children : List Outline)

structure HoleError where
  deriving DecidableEq

def HoleError.message (_ : HoleError) : String := "No display mapping for ASTNode"

/-- A number in a label: a whole number without a fraction, others as they are shown. -/
def Binary64.label : Binary64 → String
  | .finite negative size =>
    if size.isWhole then
      (if negative && size.units != 0 then "-" else "") ++ Digits.decimal size.whole
    else (Binary64.finite negative size).text
  | x => x.text

def Numeral.label (numeral : Numeral) : Except NumeralError String :=
  match numeral with
  | .real x => .ok x.label
  | .integer n =>
    match numeral.toReal? with
    | some _ => .ok (Digits.signed n)
    | none => .error .tooLarge

def Detail.text? : Detail → Option String
  | .none => Option.none
  | .value x => some x.label
  | .name text => some text
  | .operator text => some text
  | .parameter text => some text
  | .bound text => some text

namespace Outline

def kind : Outline → String
  | .entry kind _ _ => kind

/-- The name of the first node: its own if it is a name, else its kind. -/
def name : Outline → String
  | .entry _ (.name text) _ => text
  | .entry kind _ _ => kind

def label : Outline → String
  | .entry kind detail _ =>
    match detail.text? with
    | some text => kind ++ " (" ++ text ++ ")"
    | none => kind

mutual

/-- The lines of a drawing whose first line begins with `first` and whose other lines begin with
`rest`. -/
def draw (first rest : String) : Outline → List String
  | .entry kind detail children =>
    (first ++ (Outline.entry kind detail []).label) :: drawChildren rest children

/-- The lines of the subtrees below lines that begin with `lead`; the last hangs from a corner and
the others from a bar that goes on. -/
def drawChildren (lead : String) : List Outline → List String
  | [] => []
  | [child] => child.draw (lead ++ "└── ") (lead ++ "    ")
  | child :: more =>
    child.draw (lead ++ "├── ") (lead ++ "│   ") ++ drawChildren lead more

end

end Outline

namespace Expr

def outline : Expr → Except HoleError Outline
  | .number value => .ok (.entry "Number" (.value value) [])
  | .name text => .ok (.entry "Variable" (.name text) [])
  | .binary operator left right => do
    let left ← left.outline
    let right ← right.outline
    return .entry "BinaryOp" (.operator operator) [left, right]
  | .lambda parameter body => do
    let body ← body.outline
    return .entry "Function" (.parameter parameter) [body]
  | .apply function argument => do
    let function ← function.outline
    let argument ← argument.outline
    return .entry "Application" .none [function, argument]
  | .letIn bound value body => do
    let value ← value.outline
    let body ← body.outline
    return .entry "Let" (.bound bound) [value, body]
  | .ifThen condition thenBranch elseBranch => do
    let condition ← condition.outline
    let thenBranch ← thenBranch.outline
    let elseBranch ← elseBranch.outline
    return .entry "If" .none [condition, thenBranch, elseBranch]
  | .hole => .error {}

def label (tree : Expr) : Except HoleError String := do
  return (← tree.outline).label

def textTree (tree : Expr) : Except HoleError String := do
  return "\n".intercalate ((← tree.outline).draw "" "")

end Expr

end Funlet
