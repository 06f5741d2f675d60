import Funlet.Expr.Source
import Funlet.Grammar.Fault

/-!
# The rules of the grammar

Each rule reads an expression from the front of a list of tokens and leaves the tokens after it.  No
rule goes back: the next token decides how to go on.  A rule stops at the first token it cannot use,
in failure as in success.

An expression within an expression is read by the rule `expression` one nesting level further down,
and by nothing else.  The levels still allowed are the argument on which that rule recurs, and every
other rule is given it as a reader of the expressions inside.
-/

set_option autoImplicit false

namespace Funlet.Grammar

abbrev Reader := EStateM Fault (List Token)

/-- The greatest number of expressions that may be open at once. -/
def maxNesting : Nat := 64

def fail {α : Type} (expected : Expectation) : Reader α :=
  fun rest => .error (.unexpected expected rest) rest

def startsWith (kind : Kind) : List Token → Bool
  | token :: _ => token.kind == kind
  | [] => false

def startsAtom : List Token → Bool
  | token :: _ =>
    match token.kind with
    | .number => true
    | .name => true
    | .leftParen => true
    | .lambda => true
    | _ => false
  | [] => false

def startsOperator (operators : List String) : List Token → Bool
  | token :: _ => token.kind == .operator && operators.contains token.text
  | [] => false

def expect (kind : Kind) : Reader Token
  | token :: rest =>
    if token.kind = kind then .ok token rest
    else .error (.unexpected (.kind kind) (token :: rest)) (token :: rest)
  | [] => .error (.unexpected (.kind kind) []) []

def expectText (kind : Kind) (text : String) : Reader Token
  | token :: rest =>
    if token.kind = kind ∧ token.text = text then .ok token rest
    else .error (.unexpected (.text text) (token :: rest)) (token :: rest)
  | [] => .error (.unexpected (.text text) []) []

/-- A node just completed, whose fault is placed at the tokens from `start` on if the tree has grown
too tall. -/
def grown (start : List Token) (node : Expr) : Reader Expr :=
  fun rest =>
    if node.height ≤ Expr.maxHeight then .ok node rest
    else .error (.unexpected .shallowerNesting start) rest

def lambdaForm (expression : Reader Expr) : Reader Expr := do
  let start ← get
  let _ ← expect .lambda
  let parameter ← expect .name
  let _ ← expect .arrow
  let body ← expression
  grown start (.lambda parameter.text body)

def numberAtom (token : Token) (rest : List Token) : Reader Expr := do
  match Numeral.readReal? token.text with
  | none => throw (.unreadable token.text)
  | some value =>
    if value.isInfinite then fail .finiteNumber
    else
      set rest
      return .number value

def atom (expression : Reader Expr) : Reader Expr := do
  match ← get with
  | [] => fail .expression
  | token :: rest =>
    match token.kind with
    | .number => numberAtom token rest
    | .name =>
      set rest
      return .name token.text
    | .leftParen =>
      set rest
      let inner ← expression
      let _ ← expect .rightParen
      return inner
    | .lambda => lambdaForm expression
    | _ => fail .expression

/-- Applies a function to the atoms that follow, one after the other, as long as there are any; the
first number bounds how many there can be. -/
def arguments (expression : Reader Expr) : Nat → Expr → Reader Expr
  | 0, function => return function
  | bound + 1, function => do
    let start ← get
    if startsAtom start then
      let argument ← atom expression
      let node ← grown start (.apply function argument)
      arguments expression bound node
    else return function

def application (expression : Reader Expr) : Reader Expr := do
  let function ← atom expression
  arguments expression (← get).length function

/-- Joins a left operand with the operators and right operands that follow, one after the other; the
first number bounds how many there can be. -/
def operations (operators : List String) (operand : Reader Expr) : Nat → Expr → Reader Expr
  | 0, left => return left
  | bound + 1, left => do
    match ← get with
    | [] => return left
    | token :: rest =>
      if startsOperator operators (token :: rest) then
        set rest
        let right ← operand
        let node ← grown (token :: rest) (.binary token.text left right)
        operations operators operand bound node
      else return left

/-- Operands of one level joined by its operators, grouped to the left. -/
def chain (operators : List String) (operand : Reader Expr) : Reader Expr := do
  let left ← operand
  operations operators operand (← get).length left

def multiplicative (expression : Reader Expr) : Reader Expr :=
  chain Operator.multiplicative (application expression)

def additive (expression : Reader Expr) : Reader Expr :=
  chain Operator.additive (multiplicative expression)

def comparison (expression : Reader Expr) : Reader Expr :=
  chain Operator.comparison (additive expression)

def ifForm (expression : Reader Expr) : Reader Expr := do
  let start ← get
  if startsWith .ifWord start then
    let _ ← expect .ifWord
    let condition ← expression
    let _ ← expect .thenWord
    let thenBranch ← expression
    let _ ← expect .elseWord
    let elseBranch ← expression
    grown start (.ifThen condition thenBranch elseBranch)
  else comparison expression

def letForm (expression : Reader Expr) : Reader Expr := do
  let start ← get
  if startsWith .letWord start then
    let _ ← expect .letWord
    let bound ← expect .name
    let _ ← expectText .operator "="
    let value ← expression
    let _ ← expect .inWord
    let body ← expression
    grown start (.letIn bound.text value body)
  else ifForm expression

/-- An expression in which the given number of nesting levels may still be opened, its own
included. -/
def expression : (levels : Nat) → Reader Expr
  | 0 => fail .shallowerNesting
  | levels + 1 => letForm (expression levels)

/-- A whole program: an expression, after which strict reading allows no token. -/
def program (strict : Bool) (levels : Nat) : Reader Expr := do
  let tree ← expression levels
  let rest ← get
  if strict && !rest.isEmpty then fail .endOfInput else return tree

inductive Rule where
  | expression
  | letForm
  | ifForm
  | comparison
  | additive
  | multiplicative
  | application
  | atom
  | lambdaForm
  deriving DecidableEq

def Rule.read (levels : Nat) : Rule → Reader Expr
  | .expression => Grammar.expression levels
  | .letForm => Grammar.letForm (Grammar.expression levels)
  | .ifForm => Grammar.ifForm (Grammar.expression levels)
  | .comparison => Grammar.comparison (Grammar.expression levels)
  | .additive => Grammar.additive (Grammar.expression levels)
  | .multiplicative => Grammar.multiplicative (Grammar.expression levels)
  | .application => Grammar.application (Grammar.expression levels)
  | .atom => Grammar.atom (Grammar.expression levels)
  | .lambdaForm => Grammar.lambdaForm (Grammar.expression levels)

end Funlet.Grammar
