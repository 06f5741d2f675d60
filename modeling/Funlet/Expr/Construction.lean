import Funlet.Expr.Basic
import Funlet.Number.Numeral
import Funlet.Text.Quoted

/-!
# Construction form

A tree as the nested constructor calls that build it, every argument with its name.
-/

set_option autoImplicit false

namespace Funlet.Expr

def call (builder : String) (arguments : List (String × String)) : String :=
  builder ++ "(" ++
    ", ".intercalate (arguments.map fun argument => argument.1 ++ "=" ++ argument.2) ++ ")"

def construction : Expr → String
  | .number value => call "NumberNode" [("value", value.text)]
  | .name text => call "VariableNode" [("name", Text.quoted text)]
  | .binary operator left right =>
    call "BinaryOpNode" [("operator", Text.quoted operator), ("left", left.construction),
      ("right", right.construction)]
  | .lambda parameter body =>
    call "FunctionNode" [("parameter_name", Text.quoted parameter), ("body", body.construction)]
  | .apply function argument =>
    call "ApplicationNode" [("function", function.construction),
      ("argument", argument.construction)]
  | .letIn bound value body =>
    call "LetNode" [("variable_name", Text.quoted bound), ("value", value.construction),
      ("in_expression", body.construction)]
  | .ifThen condition thenBranch elseBranch =>
    call "IfNode" [("condition", condition.construction), ("then_branch", thenBranch.construction),
      ("else_branch", elseBranch.construction)]
  | .hole => call "ASTNode" []

end Funlet.Expr
