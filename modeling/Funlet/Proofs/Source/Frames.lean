import Funlet.Proofs.Source.Standing

/-!
# Parts of a tree with parentheses

A part of a bracketed tree is reached from the whole by a path of frames, each a form with one of
its parts taken out.  A path tells what is written before and behind the part, and at what place it
stands; any other part that can stand there can be put in its stead.  All matching parentheses of a
text are around such a part.
-/

set_option autoImplicit false

namespace Funlet

open Text (Plain Matched Pair)

/-- A form with one of its parts taken out. -/
inductive Frame where
  | leftOperand (operator : String) (right : Bracketed)
  | rightOperand (operator : String) (left : Bracketed)
  | lambdaBody (parameter : String)
  | calledFunction (argument : Bracketed)
  | callArgument (function : Bracketed)
  | letValue (bound : String) (body : Bracketed)
  | letBody (bound : String) (value : Bracketed)
  | ifCondition (thenBranch elseBranch : Bracketed)
  | ifThen (condition elseBranch : Bracketed)
  | ifElse (condition thenBranch : Bracketed)
  | parenInside

namespace Frame

def fill : Frame → Bracketed → Bracketed
  | .leftOperand operator right, part => .binary operator part right
  | .rightOperand operator left, part => .binary operator left part
  | .lambdaBody parameter, part => .lambda parameter part
  | .calledFunction argument, part => .apply part argument
  | .callArgument function, part => .apply function part
  | .letValue bound body, part => .letIn bound part body
  | .letBody bound value, part => .letIn bound value part
  | .ifCondition thenBranch elseBranch, part => .ifThen part thenBranch elseBranch
  | .ifThen condition elseBranch, part => .ifThen condition part elseBranch
  | .ifElse condition thenBranch, part => .ifThen condition thenBranch part
  | .parenInside, part => .paren part

def front : Frame → List Char
  | .leftOperand _ _ => []
  | .rightOperand operator left => left.text ++ ' ' :: (operator.toList ++ [' '])
  | .lambdaBody parameter => lambdaText parameter []
  | .calledFunction _ => []
  | .callArgument function => function.text ++ [' ']
  | .letValue bound _ => "let".toList ++ ' ' :: (bound.toList ++ ' ' :: ("=".toList ++ [' ']))
  | .letBody bound value =>
    "let".toList ++ ' ' :: (bound.toList ++ ' ' :: ("=".toList ++ ' ' :: (value.text ++
      ' ' :: ("in".toList ++ [' ']))))
  | .ifCondition _ _ => "if".toList ++ [' ']
  | .ifThen condition _ =>
    "if".toList ++ ' ' :: (condition.text ++ ' ' :: ("then".toList ++ [' ']))
  | .ifElse condition thenBranch =>
    "if".toList ++ ' ' :: (condition.text ++ ' ' :: ("then".toList ++ ' ' :: (thenBranch.text ++
      ' ' :: ("else".toList ++ [' ']))))
  | .parenInside => ['(']

def back : Frame → List Char
  | .leftOperand operator right => ' ' :: (operator.toList ++ ' ' :: right.text)
  | .calledFunction argument => ' ' :: argument.text
  | .letValue _ body => ' ' :: ("in".toList ++ ' ' :: body.text)
  | .ifCondition thenBranch elseBranch =>
    ' ' :: ("then".toList ++ ' ' :: (thenBranch.text ++ ' ' :: ("else".toList ++
      ' ' :: elseBranch.text)))
  | .ifThen _ elseBranch => ' ' :: ("else".toList ++ ' ' :: elseBranch.text)
  | .parenInside => [')']
  | _ => []

def slot : Frame → Slot → Slot
  | .leftOperand operator _, _ => ⟨Operator.level operator, False⟩
  | .rightOperand operator _, outer => ⟨Operator.level operator + 1, outer.ends⟩
  | .calledFunction _, _ => ⟨Level.application, False⟩
  | .callArgument _, outer => ⟨Level.atom, outer.ends⟩
  | .lambdaBody _, outer => ⟨Level.expression, outer.ends⟩
  | .letBody _ _, outer => ⟨Level.expression, outer.ends⟩
  | .ifElse _ _, outer => ⟨Level.expression, outer.ends⟩
  | _, _ => .closed

variable (frame : Frame) {part other : Bracketed} {outer : Slot}

theorem text_fill (part : Bracketed) :
    (frame.fill part).text = frame.front ++ (part.text ++ frame.back) := by
  cases frame <;> simp [fill, front, back, lambdaText]

theorem tree_fill (same : part.tree = other.tree) :
    (frame.fill part).tree = (frame.fill other).tree := by
  cases frame <;> simp [fill, same]

theorem levels_fill (fewer : part.levels ≤ other.levels) :
    (frame.fill part).levels ≤ (frame.fill other).levels := by
  cases frame <;> simp only [fill, Bracketed.levels] <;> omega

theorem fits_of_fill (fits : (frame.fill part).Fits) : part.Fits := by
  obtain ⟨writable, unsigned, nested, short⟩ := fits
  refine ⟨?_, ?_, lt_of_le_of_lt ?_ nested, le_trans ?_ short⟩
  · cases frame <;> simp_all [fill, Expr.Writable]
  · cases frame <;> simp_all [fill, Expr.unsigned]
  · cases frame <;> simp only [fill, Bracketed.levels] <;> omega
  · cases frame <;> simp only [fill, Bracketed.tree, Expr.height] <;> omega

theorem stands_fill (stands : (frame.fill part).Stands outer) :
    part.Stands (frame.slot outer) ∧
      ∀ other : Bracketed, other.Stands (frame.slot outer) → (frame.fill other).Stands outer := by
  cases frame with
  | leftOperand operator right =>
    obtain ⟨known, level, leftStands, rightStands⟩ := stands
    exact ⟨leftStands, fun _ otherStands => ⟨known, level, otherStands, rightStands⟩⟩
  | rightOperand operator left =>
    obtain ⟨known, level, leftStands, rightStands⟩ := stands
    exact ⟨rightStands, fun _ otherStands => ⟨known, level, leftStands, otherStands⟩⟩
  | lambdaBody parameter =>
    obtain ⟨level, ends, bodyStands⟩ := stands
    exact ⟨bodyStands, fun _ otherStands => ⟨level, ends, otherStands⟩⟩
  | calledFunction argument =>
    obtain ⟨level, functionStands, argumentStands⟩ := stands
    exact ⟨functionStands, fun _ otherStands => ⟨level, otherStands, argumentStands⟩⟩
  | callArgument function =>
    obtain ⟨level, functionStands, argumentStands⟩ := stands
    exact ⟨argumentStands, fun _ otherStands => ⟨level, functionStands, otherStands⟩⟩
  | letValue bound body =>
    obtain ⟨level, valueStands, bodyStands⟩ := stands
    exact ⟨valueStands, fun _ otherStands => ⟨level, otherStands, bodyStands⟩⟩
  | letBody bound value =>
    obtain ⟨level, valueStands, bodyStands⟩ := stands
    exact ⟨bodyStands, fun _ otherStands => ⟨level, valueStands, otherStands⟩⟩
  | ifCondition thenBranch elseBranch =>
    obtain ⟨level, conditionStands, thenStands, elseStands⟩ := stands
    exact ⟨conditionStands, fun _ otherStands => ⟨level, otherStands, thenStands, elseStands⟩⟩
  | ifThen condition elseBranch =>
    obtain ⟨level, conditionStands, thenStands, elseStands⟩ := stands
    exact ⟨thenStands, fun _ otherStands => ⟨level, conditionStands, otherStands, elseStands⟩⟩
  | ifElse condition thenBranch =>
    obtain ⟨level, conditionStands, thenStands, elseStands⟩ := stands
    exact ⟨elseStands, fun _ otherStands => ⟨level, conditionStands, thenStands, otherStands⟩⟩
  | parenInside =>
    obtain ⟨level, insideStands⟩ := stands
    exact ⟨insideStands, fun _ otherStands => ⟨level, otherStands⟩⟩

end Frame

/-! ## Paths -/

abbrev Path := List Frame

namespace Path

def fill : Path → Bracketed → Bracketed
  | [], part => part
  | frame :: path, part => frame.fill (fill path part)

def front : Path → List Char
  | [] => []
  | frame :: path => frame.front ++ front path

def back : Path → List Char
  | [] => []
  | frame :: path => back path ++ frame.back

def slot : Path → Slot → Slot
  | [], outer => outer
  | frame :: path, outer => slot path (frame.slot outer)

variable (path : Path) {part other : Bracketed} {outer : Slot}

theorem text_fill (part : Bracketed) :
    (fill path part).text = front path ++ (part.text ++ back path) := by
  induction path with
  | nil => simp [fill, front, back]
  | cons frame path ih =>
    rw [fill, frame.text_fill, ih, front, back]
    simp

theorem tree_fill (same : part.tree = other.tree) :
    (fill path part).tree = (fill path other).tree := by
  induction path with
  | nil => exact same
  | cons frame path ih => exact frame.tree_fill ih

theorem levels_fill (fewer : part.levels ≤ other.levels) :
    (fill path part).levels ≤ (fill path other).levels := by
  induction path with
  | nil => exact fewer
  | cons frame path ih => exact frame.levels_fill ih

theorem fits_of_fill (fits : (fill path part).Fits) : part.Fits := by
  induction path with
  | nil => exact fits
  | cons frame path ih => exact ih (frame.fits_of_fill fits)

theorem stands_fill (stands : (fill path part).Stands outer) :
    part.Stands (slot path outer) ∧
      ∀ other : Bracketed, other.Stands (slot path outer) → (fill path other).Stands outer := by
  induction path generalizing outer with
  | nil => exact ⟨stands, fun _ otherStands => otherStands⟩
  | cons frame path ih =>
    obtain ⟨inner, change⟩ := frame.stands_fill stands
    obtain ⟨here, changeInner⟩ := ih inner
    exact ⟨here, fun other otherStands => change _ (changeInner other otherStands)⟩

end Path

/-! ## Matching parentheses -/

namespace Bracketed

theorem plain_name {name : String} (isName : Word.isName name.toList = true) :
    Plain name.toList := by
  refine Text.plain_of_isNameChar ?_
  cases front : name.toList with
  | nil => rfl
  | cons c rest =>
    rw [front] at isName
    simp only [Word.isName, Bool.and_eq_true] at isName
    exact isName.1.2

theorem plain_number {value : Binary64} {literal : String}
    (written : value.literal? = some literal) : Plain literal.toList := by
  obtain ⟨before, after, shape, _, beforeDigits, afterDigits, _⟩ :=
    Binary64.literal?_spells written
  rw [shape]
  exact Text.plain_of_isLiteralChar fun c member =>
    isLiteralChar_of_mem beforeDigits afterDigits member

theorem plain_operator {operator : String} (known : operator ∈ Operator.known) :
    Plain operator.toList := by
  rcases Text.parentheses_of_mark? (mark?_of_known known) with
    ⟨_, kind⟩ | ⟨_, kind⟩ | ⟨plain, _⟩
  · simp at kind
  · simp at kind
  · exact plain

theorem matched_text {bracketed : Bracketed} (writable : bracketed.tree.Writable) :
    Matched bracketed.text := by
  induction bracketed with
  | number value =>
    obtain ⟨literal, written⟩ := Binary64.exists_literal_iff.mpr writable
    rw [text, written]
    exact (plain_number written).matched
  | name name => exact (plain_name writable).matched
  | binary operator left right leftIh rightIh =>
    obtain ⟨known, leftWritable, rightWritable⟩ := writable
    exact (leftIh leftWritable).spaced
      ((plain_operator known).spaced (rightIh rightWritable))
  | lambda parameter body bodyIh =>
    obtain ⟨isName, bodyWritable⟩ := writable
    exact Plain.spaced (by decide) ((plain_name isName).spaced
      (Plain.spaced (by decide) (bodyIh bodyWritable)))
  | apply function argument functionIh argumentIh =>
    exact (functionIh writable.1).spaced (argumentIh writable.2)
  | letIn bound value body valueIh bodyIh =>
    obtain ⟨isName, valueWritable, bodyWritable⟩ := writable
    exact Plain.spaced (by decide) ((plain_name isName).spaced
      (Plain.spaced (by decide) ((valueIh valueWritable).spaced
        (Plain.spaced (by decide) (bodyIh bodyWritable)))))
  | ifThen condition thenBranch elseBranch conditionIh thenIh elseIh =>
    obtain ⟨conditionWritable, thenWritable, elseWritable⟩ := writable
    exact Plain.spaced (by decide) ((conditionIh conditionWritable).spaced
      (Plain.spaced (by decide) ((thenIh thenWritable).spaced
        (Plain.spaced (by decide) (elseIh elseWritable)))))
  | paren inside insideIh => exact (insideIh writable).parenthesized

/-- Some part stands between two parentheses of the text, with what is written before and behind
them. -/
def Located (bracketed : Bracketed) (front middle back : List Char) : Prop :=
  ∃ (path : Path) (inside : Bracketed), bracketed = Path.fill path (.paren inside) ∧
    front = Path.front path ∧ middle = inside.text ∧ back = Path.back path

theorem Located.fill (frame : Frame) {part : Bracketed}
    {start middle rest front back : List Char} (located : part.Located start middle rest)
    (before : front = frame.front ++ start) (behind : back = rest ++ frame.back) :
    (frame.fill part).Located front middle back := by
  obtain ⟨path, inside, rfl, rfl, middle_, rfl⟩ := located
  exact ⟨frame :: path, inside, rfl, before, middle_, behind⟩

/-- All matching parentheses of a text stand around a part. -/
theorem located_of_pair {bracketed : Bracketed} (writable : bracketed.tree.Writable)
    {front middle back : List Char} (pair : Pair bracketed.text front middle back) :
    bracketed.Located front middle back := by
  induction bracketed generalizing front back with
  | number value =>
    obtain ⟨literal, written⟩ := Binary64.exists_literal_iff.mpr writable
    rw [text, written] at pair
    exact absurd pair (plain_number written).no_pair
  | name name => exact absurd pair (plain_name writable).no_pair
  | binary operator left right leftIh rightIh =>
    obtain ⟨known, leftWritable, rightWritable⟩ := writable
    rcases pair.of_spaced (matched_text leftWritable) with ⟨rest, rfl, inLeft⟩ | ⟨_, rfl, behind⟩
    · exact (leftIh leftWritable inLeft).fill (.leftOperand operator right) rfl rfl
    · obtain ⟨start, rfl, inRight⟩ := behind.of_word (plain_operator known)
      exact (rightIh rightWritable inRight).fill (.rightOperand operator left)
        (by simp [Frame.front]) (by simp [Frame.back])
  | lambda parameter body bodyIh =>
    obtain ⟨isName, bodyWritable⟩ := writable
    obtain ⟨_, rfl, inName⟩ := pair.of_word (by decide)
    obtain ⟨_, rfl, inArrow⟩ := inName.of_word (plain_name isName)
    obtain ⟨_, rfl, inBody⟩ := inArrow.of_word (by decide)
    exact (bodyIh bodyWritable inBody).fill (.lambdaBody parameter)
      (by simp [Frame.front, lambdaText]) (by simp [Frame.back])
  | apply function argument functionIh argumentIh =>
    obtain ⟨functionWritable, argumentWritable⟩ := writable
    rcases pair.of_spaced (matched_text functionWritable) with
      ⟨rest, rfl, inFunction⟩ | ⟨_, rfl, inArgument⟩
    · exact (functionIh functionWritable inFunction).fill (.calledFunction argument) rfl rfl
    · exact (argumentIh argumentWritable inArgument).fill (.callArgument function)
        (by simp [Frame.front]) (by simp [Frame.back])
  | letIn bound value body valueIh bodyIh =>
    obtain ⟨isName, valueWritable, bodyWritable⟩ := writable
    obtain ⟨_, rfl, inName⟩ := pair.of_word (by decide)
    obtain ⟨_, rfl, inSign⟩ := inName.of_word (plain_name isName)
    obtain ⟨_, rfl, behindSign⟩ := inSign.of_word (by decide)
    rcases behindSign.of_spaced (matched_text valueWritable) with
      ⟨rest, rfl, inValue⟩ | ⟨_, rfl, inWord⟩
    · exact (valueIh valueWritable inValue).fill (.letValue bound body)
        (by simp [Frame.front]) rfl
    · obtain ⟨_, rfl, inBody⟩ := inWord.of_word (by decide)
      exact (bodyIh bodyWritable inBody).fill (.letBody bound value)
        (by simp [Frame.front]) (by simp [Frame.back])
  | ifThen condition thenBranch elseBranch conditionIh thenIh elseIh =>
    obtain ⟨conditionWritable, thenWritable, elseWritable⟩ := writable
    obtain ⟨_, rfl, behindIf⟩ := pair.of_word (by decide)
    rcases behindIf.of_spaced (matched_text conditionWritable) with
      ⟨rest, rfl, inCondition⟩ | ⟨_, rfl, thenWord⟩
    · exact (conditionIh conditionWritable inCondition).fill
        (.ifCondition thenBranch elseBranch) (by simp [Frame.front]) rfl
    · obtain ⟨_, rfl, behindThen⟩ := thenWord.of_word (by decide)
      rcases behindThen.of_spaced (matched_text thenWritable) with
        ⟨rest, rfl, inThen⟩ | ⟨_, rfl, elseWord⟩
      · exact (thenIh thenWritable inThen).fill (.ifThen condition elseBranch)
          (by simp [Frame.front]) rfl
      · obtain ⟨_, rfl, inElse⟩ := elseWord.of_word (by decide)
        exact (elseIh elseWritable inElse).fill (.ifElse condition thenBranch)
          (by simp [Frame.front]) (by simp [Frame.back])
  | paren inside insideIh =>
    rcases pair.of_parenthesized (matched_text writable) with
      ⟨rfl, rfl, rfl⟩ | ⟨_, rest, rfl, rfl, inInside⟩
    · exact ⟨[], inside, rfl, rfl, rfl, rfl⟩
    · exact (insideIh writable inInside).fill .parenInside rfl rfl

end Bracketed

end Funlet
