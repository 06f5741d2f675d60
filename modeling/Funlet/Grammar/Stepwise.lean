import Funlet.Grammar.Program
import Funlet.Number.Index

/-!
# Driving a parser step by step

A parser stands in a list of tokens.  It can be asked to look at tokens, to read single ones and to
read an expression by any rule.  Reading tokens one by one may go past the end, where every token is
one for the end of the input.
-/

set_option autoImplicit false

namespace Funlet

structure Parser where
  tokens : List Token
  strict : Bool
  /-- The number of tokens passed. -/
  position : Nat
  /-- The number of expressions that are open around the position. -/
  depth : Nat
  deriving DecidableEq

namespace Parser

inductive Request where
  | current
  | peek (distance : Int)
  | atEnd
  | advance
  /-- Ask whether the next token has a kind and one of some texts, any text if none is given. -/
  | check (kind : Kind) (texts : List String)
  /-- Read a token of a kind, with a text if one is given. -/
  | expect (kind : Kind) (text : Option String)
  /-- Report that something described was not found. -/
  | report (description : String)
  | program
  | rule (rule : Grammar.Rule)

inductive Answer where
  | token (token : Token)
  | flag (value : Bool)
  | tree (tree : Expr)
  | mismatch (mismatch : Mismatch)

inductive RequestError where
  | grammar (error : GrammarError)
  /-- A distance leads to before the first token, counted round from the end. -/
  | outOfRange
  /-- A distance leads so far back that the place is no index. -/
  | unfit

def ofTokens (strict : Bool) (tokens : List Token) : Parser := ⟨tokens, strict, 0, 0⟩

def rest (parser : Parser) : List Token := parser.tokens.drop parser.position

def current (parser : Parser) : Token := parser.rest.head?.getD (.finish ⟨0, 0⟩)

def RequestError.message : RequestError → String
  | .grammar error => error.message
  | .outOfRange => "list index out of range"
  | .unfit => Index.refusal

/-- The token at a distance from the position: one for the end of the input after the last token,
and before the first token the one that is reached by going on from the end. -/
def peek (parser : Parser) (distance : Int) : Except RequestError Token :=
  match (parser.position : Int) + distance with
  | .ofNat index => .ok (parser.tokens[index]?.getD (.finish ⟨0, 0⟩))
  | .negSucc back =>
    match parser.tokens.reverse[back]? with
    | some token => .ok token
    | none => .error (if Index.fits (.negSucc back) then .outOfRange else .unfit)

/-- The parser after as many further tokens as another number of tokens left shows. -/
def leaving (parser : Parser) (left : Nat) : Parser :=
  { parser with position := parser.position + (parser.rest.length - left) }

def mismatch (parser : Parser) (expected : Expectation) : Mismatch :=
  ⟨expected, parser.tokens.length - parser.rest.length, parser.rest.head?⟩

def advanced (parser : Parser) : Parser := { parser with position := parser.position + 1 }

/-- Whether the current token has a kind and one of some texts; any text if none is given. -/
def check (parser : Parser) (kind : Kind) (texts : List String) : Bool :=
  parser.current.kind == kind && (texts.isEmpty || texts.contains parser.current.text)

def expect (parser : Parser) (kind : Kind) (text : Option String) :
    Except RequestError Answer × Parser :=
  if parser.check kind text.toList then (.ok (.token parser.current), parser.advanced)
  else
    let expected :=
      match text with
      | none => Expectation.kind kind
      | some text => Expectation.text text
    (.error (.grammar (.mismatch (parser.mismatch expected))), parser)

def run (parser : Parser) (reader : Grammar.Reader Expr) : Except RequestError Answer × Parser :=
  match reader parser.rest with
  | .ok tree left => (.ok (.tree tree), parser.leaving left.length)
  | .error fault left =>
    (.error (.grammar (fault.locate parser.tokens.length)), parser.leaving left.length)

def levels (parser : Parser) : Nat := Grammar.maxNesting - parser.depth

def perform (parser : Parser) : Request → Except RequestError Answer × Parser
  | .current => (.ok (.token parser.current), parser)
  | .peek distance =>
    match parser.peek distance with
    | .ok token => (.ok (.token token), parser)
    | .error error => (.error error, parser)
  | .atEnd => (.ok (.flag (decide (parser.tokens.length ≤ parser.position))), parser)
  | .advance => (.ok (.token parser.current), parser.advanced)
  | .check kind texts => (.ok (.flag (parser.check kind texts)), parser)
  | .expect kind text => parser.expect kind text
  | .report description => (.ok (.mismatch (parser.mismatch (.described description))), parser)
  | .program => parser.run (Grammar.program parser.strict parser.levels)
  | .rule rule => parser.run (rule.read parser.levels)

def performAll (parser : Parser) : List Request → List (Except RequestError Answer × Parser)
  | [] => []
  | request :: more =>
    let step := parser.perform request
    step :: step.2.performAll more

end Parser

end Funlet
