import Funlet.Grammar.Stepwise
import Funlet.Proofs.Stepwise.Characters

/-!
# Reading a program one request at a time

A program is read once more by requests to a parser that stands at an index of its tokens and counts
the expressions that are open.  The height of a node is not computed from the tree: it is noted when
the node is completed, from the heights noted for its subtrees.  Indexing the tokens, asking for the
tallest subtree and reading a number can fail, and every loop and recursion has a bound.
-/

set_option autoImplicit false

namespace Funlet.Stepwise

open Grammar (maxNesting)

/-- A parser and the heights of the nodes completed so far. -/
structure Desk where
  parser : Parser
  heights : List (Expr × Nat)

namespace Desk

/-- The height noted for a tree; a tree without a note counts as a leaf. -/
def noted (desk : Desk) (tree : Expr) : Nat := (desk.heights.lookup tree).getD 1

def note (desk : Desk) (tree : Expr) (height : Nat) : Desk :=
  { desk with heights := (tree, height) :: desk.heights }

def advanced (desk : Desk) : Desk := { desk with parser := desk.parser.advanced }

def opened (desk : Desk) : Desk :=
  { desk with parser := { desk.parser with depth := desk.parser.depth + 1 } }

def closed (desk : Desk) : Desk :=
  { desk with parser := { desk.parser with depth := desk.parser.depth - 1 } }

end Desk

abbrev Builder := EStateM (Failure Mismatch) Desk

def current : Builder Token := do
  return (← get).parser.current

def position : Builder Nat := do
  return (← get).parser.position

def advance : Builder Token := do
  let desk ← get
  set desk.advanced
  return desk.parser.current

def check (kind : Kind) (texts : List String) : Builder Bool := do
  return (← get).parser.check kind texts

def fail {α : Type} (expected : Expectation) : Builder α := do
  throw (.reported ((← get).parser.mismatch expected))

def expect (kind : Kind) (text : Option String) : Builder Token := do
  if ← check kind text.toList then advance
  else
    match text with
    | none => fail (.kind kind)
    | some text => fail (.text text)

def nest (start : Nat) (node : Expr) : Builder Expr := do
  let desk ← get
  match (node.children.map desk.noted).max? with
  | none => throw (.hazard .childless)
  | some tallest =>
    if Expr.maxHeight < 1 + tallest then
      match desk.parser.tokens[start]? with
      | none => throw (.hazard (.noToken start))
      | some token => throw (.reported ⟨.shallowerNesting, start, some token⟩)
    else
      set (desk.note node (1 + tallest))
      return node

def lambdaForm (expression : Builder Expr) : Builder Expr := do
  let start ← position
  let _ ← expect .lambda none
  let parameter ← expect .name none
  let _ ← expect .arrow none
  let body ← expression
  nest start (.lambda parameter.text body)

def numberAtom (token : Token) : Builder Expr := do
  match Numeral.readReal? token.text with
  | none => throw (.hazard (.unreadable token.text))
  | some value =>
    if value.isInfinite then fail .finiteNumber
    else
      let _ ← advance
      return .number value

def parenAtom (expression : Builder Expr) : Builder Expr := do
  let _ ← advance
  let inner ← expression
  let _ ← expect .rightParen none
  return inner

def nameAtom : Builder Expr := do
  let token ← advance
  return .name token.text

def atom (expression : Builder Expr) : Builder Expr := do
  let token ← current
  match token.kind with
  | .number => numberAtom token
  | .name => nameAtom
  | .leftParen => parenAtom expression
  | .lambda => lambdaForm expression
  | _ => fail .expression

def atomKinds : List Kind := [.number, .name, .leftParen, .lambda]

def arguments (expression : Builder Expr) : (bound : Nat) → Expr → Builder Expr
  | 0, _ => throw (.hazard .endless)
  | bound + 1, function => do
    let token ← current
    if atomKinds.contains token.kind then
      let start ← position
      let argument ← atom expression
      let node ← nest start (.apply function argument)
      arguments expression bound node
    else return function

def application (expression : Builder Expr) : Builder Expr := do
  let function ← atom expression
  arguments expression ((← get).parser.rest.length + 1) function

def operations (operators : List String) (operand : Builder Expr) :
    (bound : Nat) → Expr → Builder Expr
  | 0, _ => throw (.hazard .endless)
  | bound + 1, left => do
    if ← check .operator operators then
      let start ← position
      let operator ← advance
      let right ← operand
      let node ← nest start (.binary operator.text left right)
      operations operators operand bound node
    else return left

def chain (operators : List String) (operand : Builder Expr) : Builder Expr := do
  let left ← operand
  operations operators operand ((← get).parser.rest.length + 1) left

def multiplicative (expression : Builder Expr) : Builder Expr :=
  chain Operator.multiplicative (application expression)

def additive (expression : Builder Expr) : Builder Expr :=
  chain Operator.additive (multiplicative expression)

def comparison (expression : Builder Expr) : Builder Expr :=
  chain Operator.comparison (additive expression)

def ifForm (expression : Builder Expr) : Builder Expr := do
  if ← check .ifWord [] then
    let start ← position
    let _ ← advance
    let condition ← expression
    let _ ← expect .thenWord none
    let thenBranch ← expression
    let _ ← expect .elseWord none
    let elseBranch ← expression
    nest start (.ifThen condition thenBranch elseBranch)
  else comparison expression

def letForm (expression : Builder Expr) : Builder Expr := do
  if ← check .letWord [] then
    let start ← position
    let _ ← advance
    let bound ← expect .name none
    let _ ← expect .operator (some "=")
    let value ← expression
    let _ ← expect .inWord none
    let body ← expression
    nest start (.letIn bound.text value body)
  else ifForm expression

def expression : (bound : Nat) → Builder Expr
  | 0 => throw (.hazard .endless)
  | bound + 1 => do
    if maxNesting ≤ (← get).parser.depth then fail .shallowerNesting
    else
      modify Desk.opened
      try letForm (expression bound) finally modify Desk.closed

def program : Builder Expr := do
  let tree ← expression (maxNesting + 1)
  let parser := (← get).parser
  if parser.position < parser.tokens.length && parser.strict then fail .endOfInput
  else return tree

def ofTokens (strict : Bool) (tokens : List Token) : Except (Failure Mismatch) Expr :=
  match program ⟨.ofTokens strict tokens, []⟩ with
  | .ok tree _ => .ok tree
  | .error failure _ => .error failure

def ofText (strict : Bool) (text : String) : Except (Failure ProgramError) Expr := do
  let tokens ← (tokenize text).mapError (Failure.map .stray)
  (ofTokens strict tokens).mapError (Failure.map fun mismatch => .grammar (.mismatch mismatch))

end Funlet.Stepwise
