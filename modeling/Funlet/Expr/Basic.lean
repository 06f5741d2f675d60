import Funlet.Number.Binary64

/-!
# Expressions

The trees of the language: seven forms of expression, and a hole where none has been given.  Names
and operators are any texts, strings unless another kind of text is named; whether they can be
written down is decided by the printer.  A tree can be walked in pre-order with a stack of pending
trees or by recursion.
-/

set_option autoImplicit false

namespace Funlet

inductive Expr (Text : Type := String) where
  | number (value : Binary64)
  | name (text : Text)
  | binary (operator : Text) (left right : Expr Text)
  | lambda (parameter : Text) (body : Expr Text)
  | apply (function argument : Expr Text)
  | letIn (bound : Text) (value body : Expr Text)
  | ifThen (condition thenBranch elseBranch : Expr Text)
  | hole
  deriving DecidableEq, Inhabited

namespace Expr

variable {Text : Type}

def tag : Expr Text → String
  | .number _ => "Number"
  | .name _ => "Variable"
  | .binary _ _ _ => "BinaryOp"
  | .lambda _ _ => "Function"
  | .apply _ _ => "Application"
  | .letIn _ _ _ => "Let"
  | .ifThen _ _ _ => "If"
  | .hole => ""

def children : Expr Text → List (Expr Text)
  | .number _ => []
  | .name _ => []
  | .binary _ left right => [left, right]
  | .lambda _ body => [body]
  | .apply function argument => [function, argument]
  | .letIn _ value body => [value, body]
  | .ifThen condition thenBranch elseBranch => [condition, thenBranch, elseBranch]
  | .hole => []

def isLeaf (tree : Expr) : Bool := tree.children.isEmpty

def height : Expr Text → Nat
  | .number _ => 1
  | .name _ => 1
  | .binary _ left right => 1 + max left.height right.height
  | .lambda _ body => 1 + body.height
  | .apply function argument => 1 + max function.height argument.height
  | .letIn _ value body => 1 + max value.height body.height
  | .ifThen condition thenBranch elseBranch =>
    1 + max condition.height (max thenBranch.height elseBranch.height)
  | .hole => 1

def size : Expr → Nat
  | .number _ => 1
  | .name _ => 1
  | .binary _ left right => left.size + right.size + 1
  | .lambda _ body => body.size + 1
  | .apply function argument => function.size + argument.size + 1
  | .letIn _ value body => value.size + body.size + 1
  | .ifThen condition thenBranch elseBranch =>
    condition.size + thenBranch.size + elseBranch.size + 1
  | .hole => 1

def sizeAll : List Expr → Nat
  | [] => 0
  | tree :: rest => tree.size + sizeAll rest

theorem sizeAll_append (first second : List Expr) :
    sizeAll (first ++ second) = sizeAll first + sizeAll second := by
  induction first with
  | nil => simp [sizeAll]
  | cons tree rest ih =>
    simp only [List.cons_append, sizeAll, ih]
    omega

theorem size_eq_children (tree : Expr) : tree.size = sizeAll tree.children + 1 := by
  cases tree with
  | ifThen condition thenBranch elseBranch =>
    simp only [size, children, sizeAll]
    omega
  | _ => simp [size, children, sizeAll]

/-- The greatest height of a tree that the parser builds or the data reader accepts. -/
def maxHeight : Nat := 256

/-- Equality of structure, in which numbers are compared by value; a hole equals nothing. -/
def same : Expr → Expr → Bool
  | .number value, .number value' => value.same value'
  | .name text, .name text' => text == text'
  | .binary operator left right, .binary operator' left' right' =>
    operator == operator' && left.same left' && right.same right'
  | .lambda parameter body, .lambda parameter' body' => parameter == parameter' && body.same body'
  | .apply function argument, .apply function' argument' =>
    function.same function' && argument.same argument'
  | .letIn bound value body, .letIn bound' value' body' =>
    bound == bound' && value.same value' && body.same body'
  | .ifThen condition thenBranch elseBranch, .ifThen condition' thenBranch' elseBranch' =>
    condition.same condition' && thenBranch.same thenBranch' && elseBranch.same elseBranch'
  | _, _ => false

/-- The nodes of the pending trees, the first tree's before the others'; the subtrees of a node are
put on the stack in its place. -/
def walkAll : List Expr → List Expr
  | [] => []
  | tree :: pending => tree :: walkAll (tree.children ++ pending)
termination_by pending => sizeAll pending
decreasing_by
  have := size_eq_children tree
  simp only [sizeAll_append, sizeAll]
  omega

def walk (tree : Expr) : List Expr := walkAll [tree]

def preorder : Expr → List Expr
  | .number value => [.number value]
  | .name text => [.name text]
  | .binary operator left right =>
    .binary operator left right :: (left.preorder ++ right.preorder)
  | .lambda parameter body => .lambda parameter body :: body.preorder
  | .apply function argument =>
    .apply function argument :: (function.preorder ++ argument.preorder)
  | .letIn bound value body => .letIn bound value body :: (value.preorder ++ body.preorder)
  | .ifThen condition thenBranch elseBranch =>
    .ifThen condition thenBranch elseBranch ::
      (condition.preorder ++ thenBranch.preorder ++ elseBranch.preorder)
  | .hole => [.hole]

end Expr

end Funlet
