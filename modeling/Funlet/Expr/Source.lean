import Funlet.Expr.Basic
import Funlet.Number.Numeral
import Funlet.Token.Word

/-!
# Canonical source

An expression as text of the language.  Every form has a level that says how tightly it binds; a
subtree that binds less tightly than its place requires is put between parentheses.
-/

set_option autoImplicit false

namespace Funlet

inductive NumeralError where
  | tooLarge
  | noLiteral (value : Numeral)
  deriving DecidableEq

inductive SourceError where
  | number (cause : NumeralError)
  | notName (text : String)
  | unknownOperator (operator : String)
  | hole
  deriving DecidableEq

def Numeral.shown : Numeral → String
  | .integer n => Digits.signed n
  | .real x => x.text

def NumeralError.message : NumeralError → String
  | .tooLarge => "int too large to convert to float"
  | .noLiteral value => "Number " ++ value.shown ++ " has no MicroML literal form"

def SourceError.message : SourceError → String
  | .number cause => cause.message
  | .notName text => Text.quoted text ++ " is not a valid MicroML identifier"
  | .unknownOperator operator => "Unknown binary operator: " ++ Text.quoted operator
  | .hole => "No emitter for node type: ASTNode"

namespace Level

/-- What extends as far to the right as possible: bindings, choices and functions. -/
def expression : Nat := 0

def comparison : Nat := 1

def additive : Nat := 2

def multiplicative : Nat := 3

def application : Nat := 4

/-- Numbers, names and whatever stands between parentheses. -/
def atom : Nat := 5

end Level

namespace Operator

def comparison : List String := ["==", "!=", "<", ">", "<=", ">="]

def additive : List String := ["+", "-"]

def multiplicative : List String := ["*", "/"]

def level? (operator : String) : Option Nat :=
  if comparison.contains operator then some Level.comparison
  else if additive.contains operator then some Level.additive
  else if multiplicative.contains operator then some Level.multiplicative
  else none

end Operator

/-- The literal of a number: its digits without a sign or an exponent.  Whole numbers are written in
full, others with the fewest digits that read back. -/
def Binary64.literal? : Binary64 → Option String
  | .finite negative size =>
    if negative && size.units != 0 then none
    else if size.isWhole then some (Digits.decimal size.whole)
    else some (String.ofList size.shortest.positional)
  | _ => none

def Numeral.literal (numeral : Numeral) : Except NumeralError String :=
  match numeral.toReal? with
  | none => .error .tooLarge
  | some x =>
    match x.literal? with
    | some text => .ok text
    | none => .error (.noLiteral numeral)

def writtenName (text : String) : Except SourceError String :=
  if Word.isName text.toList then .ok text else .error (.notName text)

namespace Expr

/-- A text of one level at a place that requires another. -/
def placed (required level : Nat) (text : String) : String :=
  if level < required then "(" ++ text ++ ")" else text

/-- The source of a tree at a place that requires a level. -/
def sourceAt (required : Nat) : Expr → Except SourceError String
  | .number value =>
    match (Numeral.real value).literal with
    | .ok text => .ok (placed required Level.atom text)
    | .error cause => .error (.number cause)
  | .name text => do
    return placed required Level.atom (← writtenName text)
  | .binary operator left right =>
    match Operator.level? operator with
    | none => .error (.unknownOperator operator)
    | some level => do
      let left ← left.sourceAt level
      let right ← right.sourceAt (level + 1)
      return placed required level (left ++ " " ++ operator ++ " " ++ right)
  | .lambda parameter body => do
    let body ← body.sourceAt Level.expression
    let parameter ← writtenName parameter
    return placed required Level.expression ("fun " ++ parameter ++ " -> " ++ body)
  | .apply function argument => do
    let function ← function.sourceAt Level.application
    let argument ← argument.sourceAt Level.atom
    return placed required Level.application (function ++ " " ++ argument)
  | .letIn bound value body => do
    let value ← value.sourceAt Level.expression
    let body ← body.sourceAt Level.expression
    let bound ← writtenName bound
    return placed required Level.expression
      ("let " ++ bound ++ " = " ++ value ++ " in " ++ body)
  | .ifThen condition thenBranch elseBranch => do
    let condition ← condition.sourceAt Level.expression
    let thenBranch ← thenBranch.sourceAt Level.expression
    let elseBranch ← elseBranch.sourceAt Level.expression
    return placed required Level.expression
      ("if " ++ condition ++ " then " ++ thenBranch ++ " else " ++ elseBranch)
  | .hole => .error .hole

def source (tree : Expr) : Except SourceError String :=
  tree.sourceAt Level.expression

end Expr

end Funlet
