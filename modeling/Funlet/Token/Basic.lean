import Funlet.Text.Quoted
import Funlet.Token.Place

/-!
# Tokens

A token is a word of the language: its kind, its text and the place of its first character.
-/

set_option autoImplicit false

namespace Funlet

/-- The kinds of tokens.  The thirteen kinds of words come first; the end of the input has a kind
of its own, and a token made by hand may bear any other tag. -/
inductive Kind where
  | number
  | name
  | letWord
  | inWord
  | ifWord
  | thenWord
  | elseWord
  | lambda
  | arrow
  | leftParen
  | rightParen
  | operator
  | semicolon
  | endOfInput
  | other (tag : String)
  deriving DecidableEq, Inhabited

namespace Kind

def tag : Kind → String
  | .number => "NUMBER"
  | .name => "IDENT"
  | .letWord => "LET"
  | .inWord => "IN"
  | .ifWord => "IF"
  | .thenWord => "THEN"
  | .elseWord => "ELSE"
  | .lambda => "LAMBDA"
  | .arrow => "ARROW"
  | .leftParen => "LPAREN"
  | .rightParen => "RPAREN"
  | .operator => "OPERATOR"
  | .semicolon => "SEMICOLON"
  | .endOfInput => "EOF"
  | .other tag => tag

def named : List Kind :=
  [.number, .name, .letWord, .inWord, .ifWord, .thenWord, .elseWord, .lambda, .arrow, .leftParen,
    .rightParen, .operator, .semicolon, .endOfInput]

def ofTag (tag : String) : Kind :=
  (named.find? fun kind => kind.tag == tag).getD (.other tag)

end Kind

structure Token where
  kind : Kind
  text : String
  place : Place
  deriving DecidableEq, Inhabited

namespace Token

def finish (place : Place) : Token := ⟨.endOfInput, "EOF", place⟩

def echo (token : Token) : String :=
  "Token(" ++ token.kind.tag ++ ", " ++ token.text ++ ")"

def describe (token : Token) : String :=
  token.kind.tag ++ " " ++ Text.quoted token.text

def row (token : Token) : String :=
  Digits.signed token.place.line ++ ":" ++ Digits.signed token.place.column ++ "\t" ++
    token.kind.tag ++ "\t" ++ token.text

def echoAll (tokens : List Token) : String :=
  "[" ++ ", ".intercalate (tokens.map echo) ++ "]"

def listing (tokens : List Token) : String :=
  "\n".intercalate (tokens.map row)

end Token

end Funlet
