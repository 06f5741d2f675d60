import Funlet.Data.Basic
import Funlet.Expr.Basic
import Funlet.Host

/-!
# Expressions as records

Each form of expression is a record with its tag and its fields, subtrees being records themselves.
Reading a record back checks every field in order and drops the keys that the form does not have.
The message of an error shows the value that was refused, if the host can spell it.
-/

set_option autoImplicit false

namespace Funlet

/-- A value that its record must not hold, and the number of levels that are left for the subtrees
of the record. -/
structure Refused (Text : Type := String) where
  left : Nat
  value : Data Text

inductive RecordError (Text : Type := String) where
  | tooDeep
  | notRecord (value : Data Text)
  | unknownTag (refused : Refused Text)
  | missingField (tag key : String)
  | notNumeric (refused : Refused Text)
  | notFinite (refused : Refused Text)
  | notText (tag key : String) (refused : Refused Text)

namespace RecordError

variable {Text : Type} [Wording Text]

/-- A message that ends in the spelling of a value.  That an integer in it is too long to be spelled
is reported instead.  The levels above the record have taken calls that the spelling cannot take. -/
def ending [Host] (start : String) (refused : Refused Text) : Except TooNested String :=
  match refused.value.spell (Host.maxNesting + refused.left) with
  | .ok spelling => .ok (start ++ spelling)
  | .error (.tooManyDigits limit) => .ok limit.message
  | .error (.tooNested limit) => .error limit

def message [Host] : RecordError Text → Except TooNested String
  | .tooDeep =>
    .ok ("Serialized tree is deeper than " ++ Digits.decimal Expr.maxHeight ++ " levels")
  | .notRecord value => .ok ("Expected a serialized node, got " ++ value.typeName)
  | .unknownTag refused => ending "Unknown nodeType: " refused
  | .missingField tag key => .ok (tag ++ " node is missing field " ++ Funlet.Text.quoted key)
  | .notNumeric refused => ending "Number value must be numeric, got " refused
  | .notFinite refused => ending "Number value must be finite, got " refused
  | .notText tag key refused => ending (tag ++ "." ++ key ++ " must be a string, got ") refused

end RecordError

namespace Expr

variable {Text : Type} [Wording Text]

abbrev keyed (key : String) (value : Data Text) : Text × Data Text := (Wording.ofString key, value)

abbrev tagEntry (tag : String) : Text × Data Text :=
  keyed "nodeType" (.text (Wording.ofString tag))

/-- The record of a tree; there is none for a tree with a hole. -/
def toData : Expr Text → Option (Data Text)
  | .number value => some (.map [tagEntry "Number", keyed "value" (.float value)])
  | .name text => some (.map [tagEntry "Variable", keyed "name" (.text text)])
  | .binary operator left right => do
    let left ← left.toData
    let right ← right.toData
    return .map [tagEntry "BinaryOp", keyed "operator" (.text operator), keyed "left" left,
      keyed "right" right]
  | .lambda parameter body => do
    let body ← body.toData
    return .map [tagEntry "Function", keyed "parameterName" (.text parameter), keyed "body" body]
  | .apply function argument => do
    let function ← function.toData
    let argument ← argument.toData
    return .map [tagEntry "Application", keyed "function" function, keyed "argument" argument]
  | .letIn bound value body => do
    let value ← value.toData
    let body ← body.toData
    return .map [tagEntry "Let", keyed "variableName" (.text bound), keyed "value" value,
      keyed "inExpression" body]
  | .ifThen condition thenBranch elseBranch => do
    let condition ← condition.toData
    let thenBranch ← thenBranch.toData
    let elseBranch ← elseBranch.toData
    return .map [tagEntry "If", keyed "condition" condition, keyed "thenBranch" thenBranch,
      keyed "elseBranch" elseBranch]
  | .hole => none

variable [DecidableEq Text]

def field (tag key : String) (entries : List (Text × Data Text)) :
    Except (RecordError Text) (Data Text) :=
  match Data.entry? entries key with
  | some value => .ok value
  | none => .error (.missingField tag key)

def textField (left : Nat) (tag key : String) (entries : List (Text × Data Text)) :
    Except (RecordError Text) Text := do
  match ← field tag key entries with
  | .text text => return text
  | value => throw (.notText tag key ⟨left, value⟩)

def numberField (left : Nat) (entries : List (Text × Data Text)) :
    Except (RecordError Text) Binary64 := do
  match ← field "Number" "value" entries with
  | .float value =>
    if value.isFinite then return value else throw (.notFinite ⟨left, .float value⟩)
  | .int value =>
    if (Binary64.ofInt value).isFinite then return .ofInt value
    else throw (.notFinite ⟨left, .int value⟩)
  | value => throw (.notNumeric ⟨left, value⟩)

def tag? (entries : List (Text × Data Text)) : Option String :=
  match Data.entry? entries "nodeType" with
  | some (.text text) => Wording.toString? text
  | _ => none

theorem tag?_eq_some_iff {entries : List (Text × Data Text)} {tag : String} :
    tag? entries = some tag ↔
      Data.entry? entries "nodeType" = some (.text (Wording.ofString tag)) := by
  unfold tag?
  split
  · rename_i text given
    simp [given, Wording.toString?_eq_some_iff]
  · rename_i noText
    simp only [reduceCtorEq, false_iff]
    exact noText _

/-- Reads the record of a tree of at most the given height. -/
def ofDataWithin : (levels : Nat) → Data Text → Except (RecordError Text) (Expr Text)
  | 0, _ => .error .tooDeep
  | levels + 1, .map entries =>
    let child (tag key : String) : Except (RecordError Text) (Expr Text) := do
      ofDataWithin levels (← field tag key entries)
    match tag? entries with
    | some "Number" => do
      return .number (← numberField levels entries)
    | some "Variable" => do
      return .name (← textField levels "Variable" "name" entries)
    | some "BinaryOp" => do
      let operator ← textField levels "BinaryOp" "operator" entries
      let left ← child "BinaryOp" "left"
      let right ← child "BinaryOp" "right"
      return .binary operator left right
    | some "Function" => do
      let parameter ← textField levels "Function" "parameterName" entries
      let body ← child "Function" "body"
      return .lambda parameter body
    | some "Application" => do
      let function ← child "Application" "function"
      let argument ← child "Application" "argument"
      return .apply function argument
    | some "Let" => do
      let bound ← textField levels "Let" "variableName" entries
      let value ← child "Let" "value"
      let body ← child "Let" "inExpression"
      return .letIn bound value body
    | some "If" => do
      let condition ← child "If" "condition"
      let thenBranch ← child "If" "thenBranch"
      let elseBranch ← child "If" "elseBranch"
      return .ifThen condition thenBranch elseBranch
    | _ => .error (.unknownTag ⟨levels, ( Data.entry? entries "nodeType").getD .null⟩)
  | _ + 1, value => .error (.notRecord value)

def ofData (data : Data Text) : Except (RecordError Text) (Expr Text) :=
  ofDataWithin maxHeight data

end Expr

end Funlet
