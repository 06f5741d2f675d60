import Funlet.Token.Cursor

/-!
# Driving a cursor step by step

The single requests that a cursor answers, in any order and at any character.  Each request has an
outcome and leaves a cursor, also when it fails.
-/

set_option autoImplicit false

namespace Funlet.Cursor

inductive Request where
  | next
  | peek (distance : Int)
  | atEnd
  | skipBlanks
  | readMark
  | readName
  | readNumber
  | readToken
  | readAll

inductive Answer where
  | char (char : Option Char)
  | flag (value : Bool)
  | done
  | token (token : Option Token)
  | tokens (tokens : List Token)

inductive RequestError where
  | pastEnd (fault : PastEnd)
  | stray (stray : StrayCharacter)

def nextToken (cursor : Cursor) : Except StrayCharacter Token × Cursor :=
  match cursor.read with
  | .token token after => (.ok token, after)
  | .finished after => (.ok (.finish after.place), after)
  | .stuck stray after => (.error stray, after)

def perform (cursor : Cursor) : Request → Except RequestError Answer × Cursor
  | .next =>
    match cursor.next with
    | .ok (c, after) => (.ok (.char (some c)), after)
    | .error fault => (.error (.pastEnd fault), cursor)
  | .peek distance => (.ok (.char (cursor.peek distance)), cursor)
  | .atEnd => (.ok (.flag cursor.atEnd), cursor)
  | .skipBlanks => (.ok .done, cursor.skipBlanks)
  | .readMark =>
    match cursor.readMark with
    | some (token, after) => (.ok (.token (some token)), after)
    | none => (.ok (.token none), cursor)
  | .readName => (.ok (.token (some cursor.readName.1)), cursor.readName.2)
  | .readNumber => (.ok (.token (some cursor.readNumber.1)), cursor.readNumber.2)
  | .readToken =>
    match cursor.nextToken with
    | (.ok token, after) => (.ok (.token (some token)), after)
    | (.error stray, after) => (.error (.stray stray), after)
  | .readAll =>
    match cursor.readAll with
    | (.ok tokens, after) => (.ok (.tokens tokens), after)
    | (.error stray, after) => (.error (.stray stray), after)

def performAll (cursor : Cursor) : List Request → List (Except RequestError Answer × Cursor)
  | [] => []
  | request :: rest =>
    let step := cursor.perform request
    step :: step.2.performAll rest

end Funlet.Cursor
