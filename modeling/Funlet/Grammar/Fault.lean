import Funlet.Token.Cursor

/-!
# Faults of the grammar

What a rule of the grammar required where it could not go on.  While reading, a fault keeps the
tokens left, so that it does not depend on what came before; located in a whole list of tokens it
names the index of the first of them.
-/

set_option autoImplicit false

namespace Funlet

inductive Expectation where
  | kind (kind : Kind)
  | text (text : String)
  | expression
  | endOfInput
  | shallowerNesting
  | finiteNumber
  | described (description : String)
  deriving DecidableEq

def Expectation.description : Expectation → String
  | .kind required => required.tag
  | .text required => "'" ++ required ++ "'"
  | .expression => "expression"
  | .endOfInput => "end of input"
  | .shallowerNesting => "shallower nesting"
  | .finiteNumber => "finite number"
  | .described words => words

/-- A fault met while reading, with the tokens from the one at fault on. -/
inductive Fault where
  | unexpected (expected : Expectation) (rest : List Token)
  /-- The text of a number token is no number. -/
  | unreadable (text : String)
  deriving DecidableEq

/-- A required thing that was not found: the index of the token found instead, which is the number
of tokens if there was none. -/
structure Mismatch where
  expected : Expectation
  position : Nat
  token : Option Token
  deriving DecidableEq

namespace Mismatch

def found (mismatch : Mismatch) : String :=
  match mismatch.token with
  | some token => token.describe
  | none => "end of input"

def atEnd (mismatch : Mismatch) : Bool := mismatch.token.isNone

def message (mismatch : Mismatch) : String :=
  "Expected " ++ mismatch.expected.description ++ ", found " ++ mismatch.found ++ " at token " ++
    Digits.decimal mismatch.position ++
    match mismatch.token with
    | some token =>
      " (line " ++ Digits.signed token.place.line ++ ", col " ++
        Digits.signed token.place.column ++ ")"
    | none => ""

end Mismatch

inductive GrammarError where
  | mismatch (mismatch : Mismatch)
  | unreadable (text : String)
  deriving DecidableEq

def GrammarError.message : GrammarError → String
  | .mismatch details => details.message
  | .unreadable text => "could not convert string to float: " ++ Text.quoted text

def Fault.locate (total : Nat) : Fault → GrammarError
  | .unexpected expected rest => .mismatch ⟨expected, total - rest.length, rest.head?⟩
  | .unreadable text => .unreadable text

inductive ProgramError where
  | stray (stray : StrayCharacter)
  | grammar (error : GrammarError)
  deriving DecidableEq

def ProgramError.message : ProgramError → String
  | .stray details => details.message
  | .grammar error => error.message

end Funlet
