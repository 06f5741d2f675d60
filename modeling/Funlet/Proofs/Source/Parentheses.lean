import Funlet.Proofs.Source.Frames
import Funlet.Token.Stepwise

/-!
# The parentheses that the printer writes

The printer puts a part between parentheses where it takes it to bind less tightly than its place
requires.  The grammar agrees with it but for functions, which may be operands as they are: so the
text is no longer read as the tree if two matching parentheses are taken away, unless they are
around a function that ends where an expression ends anyway.
-/

set_option autoImplicit false

namespace Funlet

open Text (Pair)
open Grammar

namespace Bracketed

/-! ## Sparing parentheses -/

/-- How tightly a form binds for the printer. -/
def printedLevel : Bracketed → Nat
  | number _ => Level.atom
  | name _ => Level.atom
  | binary operator _ _ => Operator.level operator
  | lambda _ _ => Level.expression
  | apply _ _ => Level.application
  | letIn _ _ _ => Level.expression
  | ifThen _ _ _ => Level.expression
  | paren _ => Level.atom

/-- There are parentheses only around what binds less tightly for the printer than its place
requires. -/
def Sparing : Bracketed → (required : Nat) → Prop
  | number _, _ => True
  | name _, _ => True
  | binary operator left right, _ =>
    left.Sparing (Operator.level operator) ∧ right.Sparing (Operator.level operator + 1)
  | lambda _ body, _ => body.Sparing Level.expression
  | apply function argument, _ =>
    function.Sparing Level.application ∧ argument.Sparing Level.atom
  | letIn _ value body, _ => value.Sparing Level.expression ∧ body.Sparing Level.expression
  | ifThen condition thenBranch elseBranch, _ =>
    condition.Sparing Level.expression ∧ thenBranch.Sparing Level.expression ∧
      elseBranch.Sparing Level.expression
  | paren inside, required => inside.printedLevel < required ∧ inside.Sparing Level.expression

structure Prints (bracketed : Bracketed) (required : Nat) (tree : Expr) (text : String) : Prop where
  text : bracketed.text = text.toList
  tree : bracketed.tree = tree
  sparing : bracketed.Sparing required

theorem exists_prints_placed (form : Bracketed) {tree : Expr} {text : String} (required : Nat)
    (prints : ∀ level, form.Prints level tree text) :
    ∃ bracketed : Bracketed,
      bracketed.Prints required tree (Expr.placed required form.printedLevel text) := by
  unfold Expr.placed
  split
  · rename_i loose
    have inside := prints Level.expression
    exact ⟨.paren form, by simp [inside.text], inside.tree, loose, inside.sparing⟩
  · exact ⟨form, prints required⟩

theorem literal?_unsigned {value : Binary64} {literal : String}
    (written : value.literal? = some literal) : value.unsigned.literal? = some literal := by
  cases value with
  | finite negative size =>
    simp only [Binary64.literal?, Binary64.unsigned, Bool.false_and, Bool.false_eq_true,
      if_false] at written ⊢
    split at written
    · simp at written
    · exact written
  | infinite negative => simp [Binary64.literal?] at written
  | nan => simp [Binary64.literal?] at written

theorem exists_prints_of_sourceAt {tree : Expr} {required : Nat} {text : String}
    (written : tree.sourceAt required = .ok text) :
    ∃ bracketed : Bracketed, bracketed.Prints required tree.unsigned text := by
  induction tree generalizing required text with
  | number value =>
    obtain ⟨literal, spelled, rfl⟩ := Expr.sourceAt_number_eq_ok_iff.mp written
    refine exists_prints_placed (.number value.unsigned) required fun level => ⟨?_, rfl, trivial⟩
    simp [literal?_unsigned spelled]
  | name word =>
    obtain ⟨_, rfl⟩ := Expr.sourceAt_name_eq_ok_iff.mp written
    exact exists_prints_placed (.name word) required fun level => ⟨rfl, rfl, trivial⟩
  | binary operator left right leftIh rightIh =>
    obtain ⟨level, first, second, known, leftWritten, rightWritten, rfl⟩ :=
      Expr.sourceAt_binary_eq_ok_iff.mp written
    obtain rfl : Operator.level operator = level := by simp [Operator.level, known]
    obtain ⟨left', leftPrints⟩ := leftIh leftWritten
    obtain ⟨right', rightPrints⟩ := rightIh rightWritten
    refine exists_prints_placed (.binary operator left' right') required fun _ =>
      ⟨?_, ?_, leftPrints.sparing, rightPrints.sparing⟩
    · simp [leftPrints.text, rightPrints.text]
    · simp [leftPrints.tree, rightPrints.tree, Expr.unsigned]
  | lambda parameter body bodyIh =>
    obtain ⟨inside, bodyWritten, _, rfl⟩ := Expr.sourceAt_lambda_eq_ok_iff.mp written
    obtain ⟨body', bodyPrints⟩ := bodyIh bodyWritten
    refine exists_prints_placed (.lambda parameter body') required fun _ =>
      ⟨?_, ?_, bodyPrints.sparing⟩
    · simp [bodyPrints.text, lambdaText]
    · simp [bodyPrints.tree, Expr.unsigned]
  | apply function argument functionIh argumentIh =>
    obtain ⟨first, second, functionWritten, argumentWritten, rfl⟩ :=
      Expr.sourceAt_apply_eq_ok_iff.mp written
    obtain ⟨function', functionPrints⟩ := functionIh functionWritten
    obtain ⟨argument', argumentPrints⟩ := argumentIh argumentWritten
    refine exists_prints_placed (.apply function' argument') required fun _ =>
      ⟨?_, ?_, functionPrints.sparing, argumentPrints.sparing⟩
    · simp [functionPrints.text, argumentPrints.text]
    · simp [functionPrints.tree, argumentPrints.tree, Expr.unsigned]
  | letIn bound value body valueIh bodyIh =>
    obtain ⟨first, second, valueWritten, bodyWritten, _, rfl⟩ :=
      Expr.sourceAt_letIn_eq_ok_iff.mp written
    obtain ⟨value', valuePrints⟩ := valueIh valueWritten
    obtain ⟨body', bodyPrints⟩ := bodyIh bodyWritten
    refine exists_prints_placed (.letIn bound value' body') required fun _ =>
      ⟨?_, ?_, valuePrints.sparing, bodyPrints.sparing⟩
    · simp [valuePrints.text, bodyPrints.text]
    · simp [valuePrints.tree, bodyPrints.tree, Expr.unsigned]
  | ifThen condition thenBranch elseBranch conditionIh thenIh elseIh =>
    obtain ⟨first, second, third, conditionWritten, thenWritten, elseWritten, rfl⟩ :=
      Expr.sourceAt_ifThen_eq_ok_iff.mp written
    obtain ⟨condition', conditionPrints⟩ := conditionIh conditionWritten
    obtain ⟨then', thenPrints⟩ := thenIh thenWritten
    obtain ⟨else', elsePrints⟩ := elseIh elseWritten
    refine exists_prints_placed (.ifThen condition' then' else') required fun _ =>
      ⟨?_, ?_, conditionPrints.sparing, thenPrints.sparing, elsePrints.sparing⟩
    · simp [conditionPrints.text, thenPrints.text, elsePrints.text]
    · simp [conditionPrints.tree, thenPrints.tree, elsePrints.tree, Expr.unsigned]
  | hole => simp [Expr.sourceAt] at written

theorem sparing_fill_frame (frame : Frame) {part : Bracketed} {required : Nat} {outer : Slot}
    (sparing : (frame.fill part).Sparing required) :
    part.Sparing (frame.slot outer).required := by
  cases frame with
  | leftOperand operator right => exact sparing.1
  | rightOperand operator left => exact sparing.2
  | lambdaBody parameter => exact sparing
  | calledFunction argument => exact sparing.1
  | callArgument function => exact sparing.2
  | letValue bound body => exact sparing.1
  | letBody bound value => exact sparing.2
  | ifCondition thenBranch elseBranch => exact sparing.1
  | ifThen condition elseBranch => exact sparing.2.1
  | ifElse condition thenBranch => exact sparing.2.2
  | parenInside => exact sparing.2

theorem sparing_fill (path : Path) {part : Bracketed} {outer : Slot}
    (sparing : (Path.fill path part).Sparing outer.required) :
    part.Sparing (Path.slot path outer).required := by
  induction path generalizing outer with
  | nil => exact sparing
  | cons frame path ih => exact ih (sparing_fill_frame frame sparing)

/-- Without parentheses that were written sparingly only a function can stand, and only where an
expression ends. -/
theorem stands_iff_of_sparing {inside : Bracketed} {slot : Slot}
    (sparing : (paren inside).Sparing slot.required) (stands : (paren inside).Stands slot) :
    inside.Stands slot ↔ (∃ parameter body, inside.tree = .lambda parameter body) ∧ slot.ends := by
  obtain ⟨loose, inner⟩ := sparing
  obtain ⟨fits, closed⟩ := stands
  have tooLoose {level : Nat} (printed : level = inside.printedLevel) :
      ¬ slot.required ≤ level := by omega
  cases inside with
  | number value =>
    refine iff_of_false (fun here => tooLoose rfl here) ?_
    simp
  | name text =>
    refine iff_of_false (fun here => tooLoose rfl here) ?_
    simp
  | binary operator left right =>
    refine iff_of_false (fun here => tooLoose rfl here.2.1) ?_
    simp
  | apply function argument =>
    refine iff_of_false (fun here => tooLoose rfl here.1) ?_
    simp
  | letIn bound value body =>
    refine iff_of_false (fun here => tooLoose rfl here.1) ?_
    simp
  | ifThen condition thenBranch elseBranch =>
    refine iff_of_false (fun here => tooLoose rfl here.1) ?_
    simp
  | paren other => exact absurd inner.1 (Nat.not_lt_zero _)
  | lambda parameter body =>
    constructor
    · intro ⟨_, ends, _⟩
      exact ⟨⟨parameter, body.tree, rfl⟩, ends⟩
    · intro ⟨_, ends⟩
      exact ⟨fits, ends, closed.2.2.mono (Nat.le_refl _) fun _ => ends⟩

end Bracketed

/-! ## What follows a part -/

namespace Cursor

def closers : List Kind := [.endOfInput, .rightParen, .thenWord, .elseWord, .inWord]

def EndsExpression (cursor : Cursor) : Prop :=
  ∃ token after, cursor.nextToken = (.ok token, after) ∧ token.kind ∈ closers

theorem past_ofText {text : String} {word rest : List Char} (begins : text.toList = word ++ rest) :
    (ofText text).past word = ⟨word.reverse, rest, Place.start.after word⟩ := by
  simp [past, ofText, begins]

variable {behind rest : List Char} {place : Place}

theorem endsExpression_nil : EndsExpression ⟨behind, [], place⟩ := by
  obtain ⟨after, finished⟩ := @read_blank ⟨behind, [], place⟩ (by simp)
  exact ⟨.finish after.place, after, by rw [nextToken, finished], by simp [Token.finish, closers]⟩

theorem endsExpression_word_iff {gap word : List Char} {kind : Kind}
    (blank : ∀ c ∈ gap, Text.isBlank c = true)
    (found : Word.first? (word ++ rest) = some (kind, word)) :
    EndsExpression ⟨behind, gap ++ (word ++ rest), place⟩ ↔ kind ∈ closers := by
  have read := read_gap_word behind place blank found
  constructor
  · rintro ⟨token, after, next, closes⟩
    rw [nextToken, read] at next
    obtain rfl := Except.ok.inj (Prod.mk.inj next).1
    exact closes
  · intro closes
    exact ⟨_, _, by rw [nextToken, read], closes⟩

end Cursor

theorem Word.first?_keyword_spaced {word : List Char} {kind : Kind}
    (known : keyword? word = some kind) (more : List Char) :
    first? (word ++ ' ' :: more) = some (kind, word) := by
  have space : EndsWord (' ' :: more) := .inl rfl
  exact first?_keyword space known

theorem EndsWord.back {rest : List Char} (ends : EndsWord rest) (frame : Frame) :
    EndsWord (frame.back ++ rest) := by
  cases frame <;> first | exact .inl rfl | exact .inr rfl | exact ends

namespace Bracketed

theorem exists_first {bracketed : Bracketed} (writable : bracketed.tree.Writable)
    {rest : List Char} (ends : EndsWord rest) :
    ∃ kind word more, bracketed.text ++ rest = word ++ more ∧
      Word.first? (word ++ more) = some (kind, word) ∧ kind ∉ Cursor.closers := by
  induction bracketed generalizing rest with
  | number value =>
    obtain ⟨literal, written⟩ := Binary64.exists_literal_iff.mpr writable
    obtain ⟨before, after, shape, filled, beforeDigits, afterDigits, _⟩ :=
      Binary64.literal?_spells written
    rw [text, written, Option.getD_some, shape]
    exact ⟨.number, _, rest, rfl, Word.first?_literal ends filled beforeDigits afterDigits,
      by simp [Cursor.closers]⟩
  | name name =>
    exact ⟨.name, _, rest, rfl, Word.first?_name ends writable, by simp [Cursor.closers]⟩
  | binary operator left right leftIh rightIh =>
    obtain ⟨kind, word, more, split, found, opens⟩ := @leftIh writable.2.1
      (' ' :: (operator.toList ++ ' ' :: right.text) ++ rest) (.inl rfl)
    exact ⟨kind, word, more, by rw [← split]; simp, found, opens⟩
  | lambda parameter body bodyIh =>
    exact ⟨.lambda, "fun".toList, _, List.append_assoc _ _ _, Word.first?_keyword_spaced rfl _,
      by simp [Cursor.closers]⟩
  | apply function argument functionIh argumentIh =>
    obtain ⟨kind, word, more, split, found, opens⟩ := @functionIh writable.1
      (' ' :: argument.text ++ rest) (.inl rfl)
    exact ⟨kind, word, more, by rw [← split]; simp, found, opens⟩
  | letIn bound value body valueIh bodyIh =>
    exact ⟨.letWord, "let".toList, _, List.append_assoc _ _ _, Word.first?_keyword_spaced rfl _,
      by simp [Cursor.closers]⟩
  | ifThen condition thenBranch elseBranch conditionIh thenIh elseIh =>
    exact ⟨.ifWord, "if".toList, _, List.append_assoc _ _ _, Word.first?_keyword_spaced rfl _,
      by simp [Cursor.closers]⟩
  | paren inside insideIh =>
    exact ⟨.leftParen, ['('], _, rfl, Word.first?_leftParen _, by simp [Cursor.closers]⟩

end Bracketed

namespace Frame

variable {behind rest : List Char} {place : Place} (frame : Frame)

/-- The word behind a part tells whether an expression ends there. -/
theorem endsExpression_back_iff {part : Bracketed} (writable : (frame.fill part).tree.Writable)
    {outer : Slot} (ended : EndsWord rest)
    (behindForm : Cursor.EndsExpression ⟨behind, rest, place⟩ ↔ outer.ends) :
    Cursor.EndsExpression ⟨behind, frame.back ++ rest, place⟩ ↔ (frame.slot outer).ends := by
  have spaced {kind : Kind} {word more : List Char}
      (found : Word.first? (word ++ more) = some (kind, word)) :
      Cursor.EndsExpression ⟨behind, ' ' :: (word ++ more), place⟩ ↔ kind ∈ Cursor.closers := by
    have blank : ∀ c ∈ [' '], Text.isBlank c = true := List.forall_mem_singleton.mpr rfl
    exact Cursor.endsExpression_word_iff blank found
  have keyword {kind : Kind} (word : String) (known : Word.keyword? word.toList = some kind)
      (closes : kind ∈ Cursor.closers) (more : List Char) :
      Cursor.EndsExpression ⟨behind, ' ' :: (word.toList ++ ' ' :: more), place⟩ :=
    (spaced (Word.first?_keyword_spaced known more)).mpr closes
  cases frame with
  | leftOperand operator right =>
    have space : EndsWord (' ' :: right.text ++ rest) := .inl rfl
    have goesOn := spaced (Word.first?_mark space (Bracketed.mark?_of_known writable.1))
    simpa [back, slot, Cursor.closers] using goesOn
  | calledFunction argument =>
    obtain ⟨kind, word, more, split, found, opens⟩ := Bracketed.exists_first writable.2 ended
    rw [back, List.cons_append, split]
    exact (spaced found).trans (iff_of_false opens not_false)
  | letValue bound body =>
    refine iff_of_true ?_ trivial
    rw [back, List.cons_append, List.append_assoc]
    exact keyword "in" rfl (by simp [Cursor.closers]) _
  | ifCondition thenBranch elseBranch =>
    refine iff_of_true ?_ trivial
    rw [back, List.cons_append, List.append_assoc]
    exact keyword "then" rfl (by simp [Cursor.closers]) _
  | ifThen condition elseBranch =>
    refine iff_of_true ?_ trivial
    rw [back, List.cons_append, List.append_assoc]
    exact keyword "else" rfl (by simp [Cursor.closers]) _
  | parenInside =>
    refine iff_of_true ?_ trivial
    have found : Word.first? ([')'] ++ rest) = some (.rightParen, [')']) :=
      Word.first?_mark ended rfl
    exact (Cursor.endsExpression_word_iff (List.forall_mem_nil _) found).mpr
      (by simp [Cursor.closers])
  | _ => exact behindForm

end Frame

namespace Path

variable {behind rest : List Char} {place : Place} {part : Bracketed} {outer : Slot}

theorem endsExpression_back_iff (path : Path) (fits : (fill path part).Fits)
    (ended : EndsWord rest)
    (behindWhole : Cursor.EndsExpression ⟨behind, rest, place⟩ ↔ outer.ends) :
    Cursor.EndsExpression ⟨behind, back path ++ rest, place⟩ ↔ (slot path outer).ends := by
  induction path generalizing rest outer with
  | nil => exact behindWhole
  | cons frame path ih =>
    have behindForm := frame.endsExpression_back_iff fits.writable ended behindWhole
    rw [back, List.append_assoc]
    exact ih (frame.fits_of_fill fits) (ended.back frame) behindForm

/-- The word behind a part of a whole text tells whether an expression ends there. -/
theorem endsExpression_iff (path : Path) (fits : (fill path part).Fits) :
    Cursor.EndsExpression ⟨behind, back path, place⟩ ↔ (slot path .closed).ends := by
  have atEnd : Cursor.EndsExpression ⟨behind, [], place⟩ ↔ Slot.closed.ends :=
    iff_of_true Cursor.endsExpression_nil trivial
  have ended : EndsWord [] := trivial
  simpa using endsExpression_back_iff path fits ended atEnd

end Path

/-! ## Taking parentheses away -/

def Program.ReadsBack (text : String) (tree : Expr) : Prop :=
  ∃ again, ofText true text = .ok again ∧ tree.same again = true

/-- What reads back as a tree that can be written reads as the tree without signs. -/
theorem Program.readsBack_iff {tree : Expr} (writable : tree.Writable) {text : String} :
    ReadsBack text tree ↔ ofText true text = .ok tree.unsigned := by
  constructor
  · intro ⟨again, read, same⟩
    obtain ⟨_, unsigned, _⟩ := writable_of_ofText read
    rw [read, Expr.unsigned_eq_of_same same, unsigned]
  · intro read
    exact ⟨_, read, Expr.same_unsigned writable⟩

namespace Bracketed

/-- Sparing parentheses around a part can be taken away if and only if the part is a function that
ends where an expression ends. -/
theorem ofText_fill_iff (path : Path) {inside : Bracketed}
    (fits : (Path.fill path (paren inside)).Fits)
    (sparing : (Path.fill path (paren inside)).Sparing Level.expression)
    (stands : (Path.fill path (paren inside)).Stands .closed) :
    Program.ofText true (String.ofList (Path.fill path inside).text) =
        .ok (Path.fill path (paren inside)).tree ↔
      (∃ parameter body, inside.tree = .lambda parameter body) ∧
        (Path.slot path .closed).ends := by
  have sameTree : (Path.fill path inside).tree = (Path.fill path (paren inside)).tree :=
    Path.tree_fill path rfl
  have fewer : (Path.fill path inside).levels ≤ (Path.fill path (paren inside)).levels :=
    Path.levels_fill path (Nat.le_succ _)
  have fits' : (Path.fill path inside).Fits := by
    refine ⟨?_, ?_, fewer.trans_lt fits.nested, ?_⟩ <;> rw [sameTree]
    · exact fits.writable
    · exact fits.unsigned
    · exact fits.short
  obtain ⟨parenStands, change⟩ := Path.stands_fill path stands
  rw [← sameTree, fits'.ofText_eq_ok_iff,
    ← stands_iff_of_sparing (sparing_fill path sparing) parenStands]
  exact ⟨fun whole => (Path.stands_fill path whole).1, change inside⟩

end Bracketed

/-- Two matching parentheses of the source of a tree can be taken away if and only if they are
around a function, and an expression ends behind them. -/
theorem Expr.readsBack_without_parentheses_iff {tree : Expr} {text : String}
    {front middle back : List Char} (written : tree.source = .ok text)
    (readBack : Program.ReadsBack text tree) (pair : Pair text.toList front middle back) :
    Program.ReadsBack (String.ofList (front ++ (middle ++ back))) tree ↔
      (∃ parameter body,
        Program.ofText true (String.ofList middle) = .ok (.lambda parameter body)) ∧
      ((Cursor.ofText text).past (front ++ '(' :: (middle ++ [')']))).EndsExpression := by
  have writable : tree.Writable := (exists_sourceAt_iff tree Level.expression).mp ⟨text, written⟩
  obtain ⟨bracketed, prints⟩ := Bracketed.exists_prints_of_sourceAt written
  have begins : text.toList = (front ++ '(' :: (middle ++ [')'])) ++ back := by simp [pair.stands]
  have read := (Program.readsBack_iff writable).mp readBack
  rw [Program.readsBack_iff writable, Cursor.past_ofText begins, ← prints.tree]
  rw [← String.ofList_toList (s := text), ← prints.text, ← prints.tree] at read
  rw [← prints.text] at pair
  obtain ⟨fits, stands⟩ := Bracketed.fits_of_ofText read
  obtain ⟨path, inside, rfl, rfl, rfl, rfl⟩ := Bracketed.located_of_pair fits.writable pair
  have insideFits : inside.Fits := Frame.parenInside.fits_of_fill (Path.fits_of_fill path fits)
  have insideStands : inside.Stands .closed := (Path.stands_fill path stands).1.2
  have insideRead := insideFits.ofText_eq_ok_iff.mpr insideStands
  rw [← Path.text_fill, Bracketed.ofText_fill_iff path fits prints.sparing stands, insideRead,
    Path.endsExpression_iff path fits]
  simp

theorem Expr.readsBack_without_parentheses_operand :
    Program.ReadsBack "f fun x -> x" (.apply (.name "f") (.lambda "x" (.name "x"))) := by
  have written : (Expr.apply (.name "f") (.lambda "x" (.name "x"))).source =
      .ok "f (fun x -> x)" := by
    decide +kernel
  have readBack : Program.ReadsBack "f (fun x -> x)"
      (.apply (.name "f") (.lambda "x" (.name "x"))) :=
    ⟨.apply (.name "f") (.lambda "x" (.name "x")), by decide +kernel, by decide⟩
  have plain : Text.Plain "fun x -> x".toList := by decide
  have pair : Pair "f (fun x -> x)".toList "f ".toList "fun x -> x".toList [] :=
    ⟨rfl, plain.matched⟩
  refine (readsBack_without_parentheses_iff written readBack pair).mpr
    ⟨⟨"x", .name "x", by decide +kernel⟩, ?_⟩
  have begins : "f (fun x -> x)".toList =
      "f ".toList ++ '(' :: ("fun x -> x".toList ++ [')']) ++ [] := rfl
  rw [Cursor.past_ofText begins]
  exact Cursor.endsExpression_nil

end Funlet
