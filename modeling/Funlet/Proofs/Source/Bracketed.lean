import Funlet.Proofs.Source.RoundTrip
import Funlet.Proofs.Token.Balance
import Funlet.Proofs.Token.Spacing

/-!
# Trees with parentheses

A bracketed tree is a tree of which any part may stand between parentheses, any number of times and
whether they are needed or not.  It is written as the printer writes, and it is read as its words,
even where the grammar does not derive them.  Its words but for what they say, and its tree, tell
where all the parentheses are.
-/

set_option autoImplicit false

namespace Funlet

open Text (Plain Matched balance)

inductive Bracketed where
  | number (value : Binary64)
  | name (text : String)
  | binary (operator : String) (left right : Bracketed)
  | lambda (parameter : String) (body : Bracketed)
  | apply (function argument : Bracketed)
  | letIn (bound : String) (value body : Bracketed)
  | ifThen (condition thenBranch elseBranch : Bracketed)
  | paren (inside : Bracketed)

def Kind.mark : Kind → Char
  | .leftParen => '('
  | .rightParen => ')'
  | _ => '.'

def Expr.words : Expr → Nat
  | .number _ => 1
  | .name _ => 1
  | .binary _ left right => left.words + right.words + 1
  | .lambda _ body => body.words + 3
  | .apply function argument => function.words + argument.words
  | .letIn _ value body => value.words + body.words + 4
  | .ifThen condition thenBranch elseBranch =>
    condition.words + thenBranch.words + elseBranch.words + 3
  | .hole => 0

namespace Bracketed

@[simp]
def tree : Bracketed → Expr
  | number value => .number value
  | name text => .name text
  | binary operator left right => .binary operator left.tree right.tree
  | lambda parameter body => .lambda parameter body.tree
  | apply function argument => .apply function.tree argument.tree
  | letIn bound value body => .letIn bound value.tree body.tree
  | ifThen condition thenBranch elseBranch =>
    .ifThen condition.tree thenBranch.tree elseBranch.tree
  | paren inside => inside.tree

@[simp]
def text : Bracketed → List Char
  | number value => (value.literal?.getD "").toList
  | name text => text.toList
  | binary operator left right => left.text ++ ' ' :: (operator.toList ++ ' ' :: right.text)
  | lambda parameter body => lambdaText parameter body.text
  | apply function argument => function.text ++ ' ' :: argument.text
  | letIn bound value body =>
    "let".toList ++ ' ' :: (bound.toList ++ ' ' :: ("=".toList ++ ' ' :: (value.text ++
      ' ' :: ("in".toList ++ ' ' :: body.text))))
  | ifThen condition thenBranch elseBranch =>
    "if".toList ++ ' ' :: (condition.text ++ ' ' :: ("then".toList ++ ' ' :: (thenBranch.text ++
      ' ' :: ("else".toList ++ ' ' :: elseBranch.text))))
  | paren inside => '(' :: (inside.text ++ [')'])

def word (kind : Kind) (text : String) : Token := ⟨kind, text, .start⟩

@[simp]
theorem kind_word (kind : Kind) (text : String) : (word kind text).kind = kind := rfl

@[simp]
def tokens : Bracketed → List Token
  | number value => [word .number (value.literal?.getD "")]
  | name text => [word .name text]
  | binary operator left right => left.tokens ++ word .operator operator :: right.tokens
  | lambda parameter body =>
    word .lambda "fun" :: word .name parameter :: word .arrow "->" :: body.tokens
  | apply function argument => function.tokens ++ argument.tokens
  | letIn bound value body =>
    word .letWord "let" :: word .name bound :: word .operator "=" ::
      (value.tokens ++ word .inWord "in" :: body.tokens)
  | ifThen condition thenBranch elseBranch =>
    word .ifWord "if" :: (condition.tokens ++ word .thenWord "then" ::
      (thenBranch.tokens ++ word .elseWord "else" :: elseBranch.tokens))
  | paren inside => word .leftParen "(" :: (inside.tokens ++ [word .rightParen ")"])

/-! ## Reading the words -/

theorem mark?_of_known {operator : String} (known : operator ∈ Operator.known) :
    Word.mark? operator.toList = some .operator := by
  revert operator
  decide

section Reads

variable {place : Place}

theorem reads_name {name : String} (isName : Word.isName name.toList = true) :
    Cursor.Reads place name.toList [⟨.name, String.ofList name.toList, place⟩] :=
  Cursor.reads_word fun _ ends => Word.first?_name ends isName

theorem reads_number {value : Binary64} {literal : String}
    (written : value.literal? = some literal) :
    Cursor.Reads place literal.toList [⟨.number, String.ofList literal.toList, place⟩] := by
  obtain ⟨before, after, shape, filled, beforeDigits, afterDigits, _⟩ :=
    Binary64.literal?_spells written
  refine Cursor.reads_word fun rest ends => ?_
  rw [shape]
  exact Word.first?_literal ends filled beforeDigits afterDigits

theorem exists_reads {bracketed : Bracketed} (writable : bracketed.tree.Writable) (place : Place) :
    ∃ tokens, Cursor.Reads place bracketed.text tokens ∧
      tokens.map Token.unplaced = bracketed.tokens := by
  induction bracketed generalizing place with
  | number value =>
    obtain ⟨literal, written⟩ := Binary64.exists_literal_iff.mpr writable
    rw [text, tokens, written]
    exact ⟨_, reads_number written, by simp [Token.unplaced, word]⟩
  | name name => exact ⟨_, reads_name writable, by simp [Token.unplaced, word]⟩
  | binary operator left right leftIh rightIh =>
    obtain ⟨known, leftWritable, rightWritable⟩ := writable
    obtain ⟨_, leftReads, leftSame⟩ := leftIh leftWritable place
    obtain ⟨_, rightReads, rightSame⟩ := rightIh rightWritable _
    refine ⟨_, leftReads.spaced
      ((Cursor.reads_mark (mark?_of_known known)).spaced rightReads), ?_⟩
    simp [leftSame, rightSame, Token.unplaced, word]
  | lambda parameter body bodyIh =>
    obtain ⟨isName, bodyWritable⟩ := writable
    obtain ⟨_, bodyReads, bodySame⟩ := bodyIh bodyWritable _
    refine ⟨_, (Cursor.reads_keyword rfl).spaced ((reads_name isName).spaced
      ((Cursor.reads_mark rfl).spaced bodyReads)), ?_⟩
    simp [bodySame, Token.unplaced, word]
  | apply function argument functionIh argumentIh =>
    obtain ⟨functionWritable, argumentWritable⟩ := writable
    obtain ⟨_, functionReads, functionSame⟩ := functionIh functionWritable place
    obtain ⟨_, argumentReads, argumentSame⟩ := argumentIh argumentWritable _
    exact ⟨_, functionReads.spaced argumentReads, by simp [functionSame, argumentSame]⟩
  | letIn bound value body valueIh bodyIh =>
    obtain ⟨isName, valueWritable, bodyWritable⟩ := writable
    obtain ⟨_, valueReads, valueSame⟩ := valueIh valueWritable _
    obtain ⟨_, bodyReads, bodySame⟩ := bodyIh bodyWritable _
    refine ⟨_, (Cursor.reads_keyword rfl).spaced ((reads_name isName).spaced
      ((Cursor.reads_mark rfl).spaced (valueReads.spaced
        ((Cursor.reads_keyword rfl).spaced bodyReads)))), ?_⟩
    simp [valueSame, bodySame, Token.unplaced, word]
  | ifThen condition thenBranch elseBranch conditionIh thenIh elseIh =>
    obtain ⟨conditionWritable, thenWritable, elseWritable⟩ := writable
    obtain ⟨_, conditionReads, conditionSame⟩ := conditionIh conditionWritable _
    obtain ⟨_, thenReads, thenSame⟩ := thenIh thenWritable _
    obtain ⟨_, elseReads, elseSame⟩ := elseIh elseWritable _
    refine ⟨_, (Cursor.reads_keyword rfl).spaced (conditionReads.spaced
      ((Cursor.reads_keyword rfl).spaced (thenReads.spaced
        ((Cursor.reads_keyword rfl).spaced elseReads)))), ?_⟩
    simp [conditionSame, thenSame, elseSame, Token.unplaced, word]
  | paren inside insideIh =>
    obtain ⟨_, insideReads, insideSame⟩ := insideIh writable _
    exact ⟨_, insideReads.parenthesized, by simp [insideSame, Token.unplaced, word]⟩

end Reads

/-! ## Where the parentheses are -/

/-- The words of a bracketed tree if only parentheses matter. -/
def outline (bracketed : Bracketed) : List Char :=
  bracketed.tokens.map fun token => token.kind.mark

section Outlines

variable (operator text : String) (first second third : Bracketed)

@[simp]
theorem outline_binary :
    (binary operator first second).outline = first.outline ++ '.' :: second.outline := by
  simp [outline, Kind.mark]

@[simp]
theorem outline_lambda : (lambda text first).outline = '.' :: '.' :: '.' :: first.outline := rfl

@[simp]
theorem outline_apply : (apply first second).outline = first.outline ++ second.outline := by
  simp [outline]

@[simp]
theorem outline_letIn : (letIn text first second).outline =
    '.' :: '.' :: '.' :: (first.outline ++ '.' :: second.outline) := by
  simp [outline, Kind.mark]

@[simp]
theorem outline_ifThen : (ifThen first second third).outline =
    '.' :: (first.outline ++ '.' :: (second.outline ++ '.' :: third.outline)) := by
  simp [outline, Kind.mark]

@[simp]
theorem outline_paren : (paren first).outline = '(' :: (first.outline ++ [')']) := by
  simp [outline, Kind.mark]

end Outlines

theorem matched_outline (bracketed : Bracketed) : Matched bracketed.outline := by
  have plain : Plain ['.'] := by simp [Plain]
  have behind {rest : List Char} (matched : Matched rest) : Matched ('.' :: rest) :=
    plain.matched.append matched
  induction bracketed with
  | number value => exact plain.matched
  | name text => exact plain.matched
  | binary operator left right leftIh rightIh =>
    rw [outline_binary]
    exact leftIh.append (behind rightIh)
  | lambda parameter body bodyIh => exact behind (behind (behind bodyIh))
  | apply function argument functionIh argumentIh =>
    rw [outline_apply]
    exact functionIh.append argumentIh
  | letIn bound value body valueIh bodyIh =>
    rw [outline_letIn]
    exact behind (behind (behind (valueIh.append (behind bodyIh))))
  | ifThen condition thenBranch elseBranch conditionIh thenIh elseIh =>
    rw [outline_ifThen]
    exact behind (conditionIh.append (behind (thenIh.append (behind elseIh))))
  | paren inside insideIh =>
    rw [outline_paren]
    exact insideIh.parenthesized

theorem count_outline (bracketed : Bracketed) :
    bracketed.outline.count '.' = bracketed.tree.words := by
  induction bracketed with
  | number value => rfl
  | name text => rfl
  | binary operator left right leftIh rightIh =>
    simp [leftIh, rightIh, Expr.words]
    omega
  | lambda parameter body bodyIh => simp [bodyIh, Expr.words]
  | apply function argument functionIh argumentIh => simp [functionIh, argumentIh, Expr.words]
  | letIn bound value body valueIh bodyIh =>
    simp [valueIh, bodyIh, Expr.words]
    omega
  | ifThen condition thenBranch elseBranch conditionIh thenIh elseIh =>
    simp [conditionIh, thenIh, elseIh, Expr.words]
    omega
  | paren inside insideIh => simp [insideIh]

/-- Only opening parentheses stand before the first of the other words. -/
def Led (outline : List Char) : Prop :=
  ∃ opened rest, outline = List.replicate opened '(' ++ '.' :: rest

theorem Led.append {outline : List Char} (led : Led outline) (rest : List Char) :
    Led (outline ++ rest) := by
  obtain ⟨opened, more, rfl⟩ := led
  exact ⟨opened, more ++ rest, by simp⟩

theorem led_outline (bracketed : Bracketed) : Led bracketed.outline := by
  induction bracketed with
  | binary operator left right leftIh rightIh =>
    rw [outline_binary]
    exact leftIh.append _
  | apply function argument functionIh argumentIh =>
    rw [outline_apply]
    exact functionIh.append _
  | paren inside insideIh =>
    obtain ⟨opened, rest, shape⟩ := insideIh
    rw [outline_paren, shape]
    exact ⟨opened + 1, rest ++ [')'], by simp [List.replicate_succ]⟩
  | _ => exact ⟨0, _, rfl⟩

theorem outline_ne_nil (bracketed : Bracketed) : bracketed.outline ≠ [] := by
  obtain ⟨opened, rest, shape⟩ := bracketed.led_outline
  simp [shape]

theorem eq_nil_of_matched_append {front more rest : List Char} (matched : Matched front)
    (longer : Matched (front ++ more)) (sameCount : (front ++ more).count '.' = front.count '.')
    (led : Led (more ++ rest)) : more = [] := by
  have noPoint : '.' ∉ more := by
    rw [List.count_append] at sameCount
    exact List.count_eq_zero.mp (by omega)
  obtain ⟨opened, last, shape⟩ := led
  have begins : more <+: List.replicate opened '(' ++ '.' :: last := ⟨rest, shape⟩
  have opens : ∀ c ∈ more, c = '(' := by
    rcases Text.front_of_append begins with inside | ⟨behind, rfl, follows⟩
    · exact fun c member => List.eq_of_mem_replicate (inside.subset member)
    · rcases List.prefix_cons_iff.mp follows with rfl | ⟨_, rfl, _⟩
      · simp
      · simp at noPoint
  have closed := longer.closed
  rw [Text.balance_append, matched.closed, List.eq_replicate_of_mem opens, balance,
    List.count_replicate_self, List.count_replicate] at closed
  exact List.length_eq_zero_iff.mp (by simpa using closed)

/-- An outline of as many words is found only once at the front of a text. -/
theorem outline_append_inj {first second : Bracketed} {rest rest' : List Char}
    (same : first.outline ++ rest = second.outline ++ rest')
    (words : first.tree.words = second.tree.words) (led : Led rest) (led' : Led rest') :
    first.outline = second.outline ∧ rest = rest' := by
  rw [← count_outline, ← count_outline] at words
  rcases List.append_eq_append_iff.mp same with ⟨more, longer, split⟩ | ⟨more, longer, split⟩
  · have matched := second.matched_outline
    rw [longer] at matched words
    rw [split] at led
    obtain rfl := eq_nil_of_matched_append first.matched_outline matched words.symm led
    exact ⟨by rw [longer, List.append_nil], by rw [split, List.nil_append]⟩
  · have matched := first.matched_outline
    rw [longer] at matched words
    rw [split] at led'
    obtain rfl := eq_nil_of_matched_append second.matched_outline matched words led'
    exact ⟨by rw [longer, List.append_nil], by rw [split, List.nil_append]⟩

/-- What does not stand between parentheses does not look as if it did. -/
theorem outline_ne_paren {bracketed : Bracketed} (inside : Bracketed)
    (solid : ∀ other, bracketed ≠ paren other) : bracketed.outline ≠ (paren inside).outline := by
  -- The first part of an operation is closed before the operation has ended.
  have early {front rest : List Char} (matched : Matched front) (filled : front ≠ [])
      (follows : rest ≠ []) : front ++ rest ≠ '(' :: (inside.outline ++ [')']) := by
    intro same
    rcases inside.matched_outline.front_parenthesized ⟨rest, same⟩ with none | isOpen | whole
    · exact filled none
    · rw [matched.closed] at isOpen
      exact Int.lt_irrefl 0 isOpen
    · rw [whole] at same
      exact follows (List.append_right_eq_self.mp same)
  rw [outline_paren]
  cases bracketed with
  | binary operator left right =>
    rw [outline_binary]
    exact early left.matched_outline left.outline_ne_nil (by simp)
  | apply function argument =>
    rw [outline_apply]
    exact early function.matched_outline function.outline_ne_nil argument.outline_ne_nil
  | paren other => exact absurd rfl (solid other)
  | _ => simp [outline, Kind.mark]

/-- The outline and the tree of a bracketed tree tell where its parentheses are. -/
theorem eq_of_outline {first second : Bracketed} (looks : first.outline = second.outline)
    (means : first.tree = second.tree) : first = second := by
  have point (rest : List Char) : Led ('.' :: rest) := ⟨0, rest, rfl⟩
  induction first generalizing second with
  | number value =>
    cases second with
    | number value' => simpa using means
    | paren inside => exact absurd looks (outline_ne_paren inside (by simp))
    | _ => simp at means
  | name text =>
    cases second with
    | name text' => simpa using means
    | paren inside => exact absurd looks (outline_ne_paren inside (by simp))
    | _ => simp at means
  | binary operator left right leftIh rightIh =>
    cases second with
    | binary operator' left' right' =>
      obtain ⟨rfl, leftMeans, rightMeans⟩ := Expr.binary.inj means
      rw [outline_binary, outline_binary] at looks
      obtain ⟨leftLooks, behind⟩ :=
        outline_append_inj looks (congrArg Expr.words leftMeans) (point _) (point _)
      rw [leftIh leftLooks leftMeans, rightIh (List.cons.inj behind).2 rightMeans]
    | paren inside => exact absurd looks (outline_ne_paren inside (by simp))
    | _ => simp at means
  | lambda parameter body bodyIh =>
    cases second with
    | lambda parameter' body' =>
      obtain ⟨rfl, bodyMeans⟩ := Expr.lambda.inj means
      rw [bodyIh (by simpa using looks) bodyMeans]
    | paren inside => exact absurd looks (outline_ne_paren inside (by simp))
    | _ => simp at means
  | apply function argument functionIh argumentIh =>
    cases second with
    | apply function' argument' =>
      obtain ⟨functionMeans, argumentMeans⟩ := Expr.apply.inj means
      rw [outline_apply, outline_apply] at looks
      obtain ⟨functionLooks, argumentLooks⟩ :=
        outline_append_inj looks (congrArg Expr.words functionMeans) argument.led_outline
          argument'.led_outline
      rw [functionIh functionLooks functionMeans, argumentIh argumentLooks argumentMeans]
    | paren inside => exact absurd looks (outline_ne_paren inside (by simp))
    | _ => simp at means
  | letIn bound value body valueIh bodyIh =>
    cases second with
    | letIn bound' value' body' =>
      obtain ⟨rfl, valueMeans, bodyMeans⟩ := Expr.letIn.inj means
      rw [outline_letIn, outline_letIn] at looks
      obtain ⟨valueLooks, behind⟩ := outline_append_inj (by simpa using looks)
        (congrArg Expr.words valueMeans) (point _) (point _)
      rw [valueIh valueLooks valueMeans, bodyIh (List.cons.inj behind).2 bodyMeans]
    | paren inside => exact absurd looks (outline_ne_paren inside (by simp))
    | _ => simp at means
  | ifThen condition thenBranch elseBranch conditionIh thenIh elseIh =>
    cases second with
    | ifThen condition' thenBranch' elseBranch' =>
      obtain ⟨conditionMeans, thenMeans, elseMeans⟩ := Expr.ifThen.inj means
      rw [outline_ifThen, outline_ifThen] at looks
      obtain ⟨conditionLooks, behind⟩ := outline_append_inj (List.cons.inj looks).2
        (congrArg Expr.words conditionMeans) (point _) (point _)
      obtain ⟨thenLooks, last⟩ := outline_append_inj (List.cons.inj behind).2
        (congrArg Expr.words thenMeans) (point _) (point _)
      rw [conditionIh conditionLooks conditionMeans, thenIh thenLooks thenMeans,
        elseIh (List.cons.inj last).2 elseMeans]
    | paren inside => exact absurd looks (outline_ne_paren inside (by simp))
    | _ => simp at means
  | paren inside insideIh =>
    cases second with
    | paren inside' =>
      rw [outline_paren, outline_paren] at looks
      rw [insideIh (List.append_cancel_right (List.cons.inj looks).2) means]
    | _ => exact absurd looks.symm (outline_ne_paren inside (by simp))

end Bracketed

end Funlet
