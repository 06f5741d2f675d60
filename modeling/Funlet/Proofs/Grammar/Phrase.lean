import Funlet.Grammar.Rules
import Mathlib.Data.List.Forall2

/-!
# Derivation trees

A phrase is a derivation tree of the grammar

    expression     → letForm
    letForm        → "let" name "=" expression "in" expression | ifForm
    ifForm         → "if" expression "then" expression "else" expression | comparison
    comparison     → additive (("==" | "!=" | "<" | ">" | "<=" | ">=") additive)*
    additive       → multiplicative (("+" | "-") multiplicative)*
    multiplicative → application (("*" | "/") application)*
    application    → atom (atom)*
    atom           → number | name | "(" expression ")" | lambdaForm
    lambdaForm     → "fun" name "->" expression

A repetition is read from the left, so that a phrase of its rule is an operand or a shorter phrase
with one more operand.  The grammar does not say where the body of a function ends; the phrases that
a reader builds are those in which it never ends before a token that could go on with it.
-/

set_option autoImplicit false

namespace Funlet

/-- The number that a token spells; a text that is no numeral stands for an undefined number. -/
def Token.value (token : Token) : Binary64 :=
  (Numeral.readReal? token.text).getD .nan

namespace Grammar

/-- The rule of which a phrase is a phrase of the given rule already. -/
def Rule.below : Rule → Option Rule
  | .expression => some .letForm
  | .letForm => some .ifForm
  | .ifForm => some .comparison
  | .comparison => some .additive
  | .additive => some .multiplicative
  | .multiplicative => some .application
  | .application => some .atom
  | .atom => some .lambdaForm
  | .lambdaForm => none

def Rule.operators : Rule → List String
  | .comparison => Operator.comparison
  | .additive => Operator.additive
  | .multiplicative => Operator.multiplicative
  | _ => []

abbrev Terminal (kind : Kind) := { token : Token // token.kind = kind }

abbrev Sign (texts : List String) :=
  { token : Token // token.kind = .operator ∧ token.text ∈ texts }

/-- A derivation tree of a rule. -/
inductive Phrase : Rule → Type where
  | inner {rule below : Rule} (passes : rule.below = some below) (phrase : Phrase below) :
      Phrase rule
  | letIn (keyword : Terminal .letWord) (bound : Terminal .name) (equals : Sign ["="])
      (value : Phrase .expression) (inWord : Terminal .inWord) (body : Phrase .expression) :
      Phrase .letForm
  | ifThen (keyword : Terminal .ifWord) (condition : Phrase .expression)
      (thenWord : Terminal .thenWord) (thenBranch : Phrase .expression)
      (elseWord : Terminal .elseWord) (elseBranch : Phrase .expression) : Phrase .ifForm
  | join {rule below : Rule} (passes : rule.below = some below) (left : Phrase rule)
      (operator : Sign rule.operators) (right : Phrase below) : Phrase rule
  | apply (function : Phrase .application) (argument : Phrase .atom) : Phrase .application
  | number (token : Terminal .number) : Phrase .atom
  | name (token : Terminal .name) : Phrase .atom
  | paren (opening : Terminal .leftParen) (inside : Phrase .expression)
      (closing : Terminal .rightParen) : Phrase .atom
  | lambda (keyword : Terminal .lambda) (parameter : Terminal .name) (arrow : Terminal .arrow)
      (body : Phrase .expression) : Phrase .lambdaForm

namespace Phrase

@[simp]
def tokens : {rule : Rule} → Phrase rule → List Token
  | _, inner _ phrase => phrase.tokens
  | _, letIn keyword bound equals value inWord body =>
    keyword.1 :: bound.1 :: equals.1 :: (value.tokens ++ inWord.1 :: body.tokens)
  | _, ifThen keyword condition thenWord thenBranch elseWord elseBranch =>
    keyword.1 :: (condition.tokens ++
      thenWord.1 :: (thenBranch.tokens ++ elseWord.1 :: elseBranch.tokens))
  | _, join _ left operator right => left.tokens ++ operator.1 :: right.tokens
  | _, apply function argument => function.tokens ++ argument.tokens
  | _, number token => [token.1]
  | _, name token => [token.1]
  | _, paren opening inside closing => opening.1 :: (inside.tokens ++ [closing.1])
  | _, lambda keyword parameter arrow body =>
    keyword.1 :: parameter.1 :: arrow.1 :: body.tokens

/-- The expression that a phrase means, repetitions being grouped to the left. -/
@[simp]
def tree : {rule : Rule} → Phrase rule → Expr
  | _, inner _ phrase => phrase.tree
  | _, letIn _ bound _ value _ body => .letIn bound.1.text value.tree body.tree
  | _, ifThen _ condition _ thenBranch _ elseBranch =>
    .ifThen condition.tree thenBranch.tree elseBranch.tree
  | _, join _ left operator right => .binary operator.1.text left.tree right.tree
  | _, apply function argument => .apply function.tree argument.tree
  | _, number token => .number token.1.value
  | _, name token => .name token.1.text
  | _, paren _ inside _ => inside.tree
  | _, lambda _ parameter _ body => .lambda parameter.1.text body.tree

/-- The greatest number of expressions that are open at once in a phrase. -/
@[simp]
def levels : {rule : Rule} → Phrase rule → Nat
  | .expression, inner _ phrase => phrase.levels + 1
  | _, inner _ phrase => phrase.levels
  | _, letIn _ _ _ value _ body => max value.levels body.levels
  | _, ifThen _ condition _ thenBranch _ elseBranch =>
    max condition.levels (max thenBranch.levels elseBranch.levels)
  | _, join _ left _ right => max left.levels right.levels
  | _, apply function argument => max function.levels argument.levels
  | _, number _ => 0
  | _, name _ => 0
  | _, paren _ inside _ => inside.levels
  | _, lambda _ _ _ body => body.levels

/-- The number of tokens in the body of each function, in the order of the functions' keywords. -/
@[simp]
def bodies : {rule : Rule} → Phrase rule → List Nat
  | _, inner _ phrase => phrase.bodies
  | _, letIn _ _ _ value _ body => value.bodies ++ body.bodies
  | _, ifThen _ condition _ thenBranch _ elseBranch =>
    condition.bodies ++ (thenBranch.bodies ++ elseBranch.bodies)
  | _, join _ left _ right => left.bodies ++ right.bodies
  | _, apply function argument => function.bodies ++ argument.bodies
  | _, number _ => []
  | _, name _ => []
  | _, paren _ inside _ => inside.bodies
  | _, lambda _ _ _ body => body.tokens.length :: body.bodies

/-- Of all phrases with the same tokens, the body of every function ends here the furthest to the
right. -/
def Widest {rule : Rule} (phrase : Phrase rule) : Prop :=
  ∀ other : Phrase rule, other.tokens = phrase.tokens →
    List.Forall₂ (· ≤ ·) other.bodies phrase.bodies

end Phrase

def Derives (rule : Rule) (tokens : List Token) : Prop :=
  ∃ phrase : Phrase rule, phrase.tokens = tokens

/-! ## What follows a phrase -/

/-- The operators that a phrase of a rule may hold outside of all brackets. -/
def Rule.reach : Rule → List String
  | .atom => []
  | .lambdaForm => []
  | .application => []
  | .multiplicative => Operator.multiplicative
  | .additive => Operator.additive ++ Operator.multiplicative
  | _ => Operator.comparison ++ (Operator.additive ++ Operator.multiplicative)

def Rule.continues : Rule → Token → Bool
  | .atom, _ => false
  | .lambdaForm, _ => false
  | rule, token => startsAtom [token] || startsOperator rule.reach [token]

/-- The tokens do not go on with a phrase of the rule. -/
def Ends (rule : Rule) : List Token → Prop
  | [] => True
  | token :: _ => rule.continues token = false

/-- No function's body in a phrase ends before a token that could go on with it, given the tokens
after the phrase. -/
@[simp]
def Phrase.GreedyBefore : {rule : Rule} → Phrase rule → List Token → Prop
  | _, .inner _ phrase, rest => phrase.GreedyBefore rest
  | _, .letIn _ _ _ value inWord body, rest =>
    value.GreedyBefore (inWord.1 :: (body.tokens ++ rest)) ∧ body.GreedyBefore rest
  | _, .ifThen _ condition thenWord thenBranch elseWord elseBranch, rest =>
    condition.GreedyBefore
        (thenWord.1 :: (thenBranch.tokens ++ elseWord.1 :: (elseBranch.tokens ++ rest))) ∧
      thenBranch.GreedyBefore (elseWord.1 :: (elseBranch.tokens ++ rest)) ∧
      elseBranch.GreedyBefore rest
  | _, .join _ left operator right, rest =>
    left.GreedyBefore (operator.1 :: (right.tokens ++ rest)) ∧ right.GreedyBefore rest
  | _, .apply function argument, rest =>
    function.GreedyBefore (argument.tokens ++ rest) ∧ argument.GreedyBefore rest
  | _, .number _, _ => True
  | _, .name _, _ => True
  | _, .paren _ inside closing, rest => inside.GreedyBefore (closing.1 :: rest)
  | _, .lambda _ _ _ body, rest => Ends .expression rest ∧ body.GreedyBefore rest

end Grammar

end Funlet
