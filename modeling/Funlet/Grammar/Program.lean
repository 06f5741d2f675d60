import Funlet.Grammar.Rules

/-!
# Programs

A text is a program if its tokens are an expression.  Reading one also leaves notes on what was
done, which a verbose run shows.
-/

set_option autoImplicit false

namespace Funlet

inductive Note where
  | lexed (tokens characters : Nat)
  | reading (tokens : Nat) (strict : Bool)
  | ignoring (count : Nat) (first : Token)
  | opening (path : String)
  | counted (tokens : Nat)
  | rooted (tag : String)
  deriving DecidableEq

namespace Note

def origin : Note → String
  | .lexed _ _ => "microml.microml_parser"
  | .reading _ _ => "microml.microml_parser"
  | .ignoring _ _ => "microml.microml_parser"
  | .opening _ => "microml.microml_cli"
  | .counted _ => "microml.microml_cli"
  | .rooted _ => "microml.microml_cli"

def text : Note → String
  | .lexed tokens characters =>
    "lexed " ++ Digits.decimal tokens ++ " tokens from " ++ Digits.decimal characters ++
      " characters"
  | .reading tokens strict =>
    "parsing " ++ Digits.decimal tokens ++ " tokens (strict=" ++
      (if strict then "True" else "False") ++ ")"
  | .ignoring count first =>
    "ignoring " ++ Digits.decimal count ++ " trailing token(s) from " ++ first.echo
  | .opening path => "reading source from " ++ path
  | .counted tokens => "lexed " ++ Digits.decimal tokens ++ " tokens"
  | .rooted tag => "parsed " ++ tag ++ " root"

def line (note : Note) : String := note.origin ++ ": " ++ note.text

end Note

structure Noted (α : Type) where
  outcome : α
  notes : List Note

namespace Program

def ofTokensNoted (strict : Bool) (tokens : List Token) : Noted (Except GrammarError Expr) :=
  let start := Note.reading tokens.length strict
  match Grammar.program strict Grammar.maxNesting tokens with
  | .ok tree [] => ⟨.ok tree, [start]⟩
  | .ok tree (token :: rest) => ⟨.ok tree, [start, .ignoring (rest.length + 1) token]⟩
  | .error fault _ => ⟨.error (fault.locate tokens.length), [start]⟩

def ofTokens (strict : Bool) (tokens : List Token) : Except GrammarError Expr :=
  (ofTokensNoted strict tokens).outcome

def ofTextNoted (strict : Bool) (text : String) : Noted (Except ProgramError Expr) :=
  match tokenize text with
  | .error stray => ⟨.error (.stray stray), []⟩
  | .ok tokens =>
    let read := ofTokensNoted strict tokens
    let notes := Note.lexed tokens.length text.length :: read.notes
    match read.outcome with
    | .ok tree => ⟨.ok tree, notes⟩
    | .error error => ⟨.error (.grammar error), notes⟩

def ofText (strict : Bool) (text : String) : Except ProgramError Expr :=
  (ofTextNoted strict text).outcome

end Program

end Funlet
