import Funlet.Proofs.Grammar.Acceptance
import Funlet.Proofs.Token.Written

/-!
# The checks of a reading

Three things are held against a limit while a phrase is read: how many expressions are open when one
is opened, how tall a node is when it is completed, and whether a literal is a finite number.  The
checks of a phrase are listed in the order of reading, each with the token it is reported at.  The
phrase is read if all of them pass, and otherwise reading fails at the first that does not.
-/

set_option autoImplicit false

namespace Funlet

namespace Grammar

inductive Check where
  /-- An expression is opened, with which this many are open. -/
  | opens (level : Nat)
  | completes (node : Expr)
  /-- A literal is taken for the number it spells. -/
  | converts (text : String)

namespace Check

def passes : Check → Bool
  | .opens level => decide (level ≤ maxNesting)
  | .completes node => decide (node.height ≤ Expr.maxHeight)
  | .converts text =>
    match Numeral.readReal? text with
    | some value => !value.isInfinite
    | none => false

def expectation : Check → Expectation
  | .opens _ => .shallowerNesting
  | .completes _ => .shallowerNesting
  | .converts _ => .finiteNumber

/-- A limit is overstepped by as little as possible, or a literal is too large. -/
def Oversteps : Check → Prop
  | .opens level => level = maxNesting + 1
  | .completes node => node.height = Expr.maxHeight + 1
  | .converts text =>
    ∃ value, Numeral.readReal? text = some value ∧ value.isInfinite = true

def fault (check : Check) (ahead : List Token) : Fault :=
  match check with
  | .converts text =>
    match Numeral.readReal? text with
    | some _ => .unexpected .finiteNumber ahead
    | none => .unreadable text
  | .opens _ => .unexpected .shallowerNesting ahead
  | .completes _ => .unexpected .shallowerNesting ahead

end Check

structure Checkpoint where
  position : Nat
  check : Check

/-- The checks of a phrase whose first token has the given index, in the order of reading, where the
given number of expressions is open around the phrase.  An expression is checked at its first token
and a literal at its own; a node is checked behind its last part, and reported at the operator or
keyword that made it, or at the first token of its argument. -/
@[simp]
def Phrase.checks : {rule : Rule} → Phrase rule → (level position : Nat) → List Checkpoint
  | .expression, .inner _ phrase, level, position =>
    ⟨position, .opens (level + 1)⟩ :: phrase.checks (level + 1) position
  | _, .inner _ phrase, level, position => phrase.checks level position
  | _, .letIn _ bound _ value _ body, level, position =>
    value.checks level (position + 3) ++
      (body.checks level (position + 3 + value.tokens.length + 1) ++
        [⟨position, .completes (.letIn bound.1.text value.tree body.tree)⟩])
  | _, .ifThen _ condition _ thenBranch _ elseBranch, level, position =>
    let thenStart := position + 1 + condition.tokens.length + 1
    condition.checks level (position + 1) ++
      (thenBranch.checks level thenStart ++
        (elseBranch.checks level (thenStart + thenBranch.tokens.length + 1) ++
          [⟨position, .completes (.ifThen condition.tree thenBranch.tree elseBranch.tree)⟩]))
  | _, .join _ left operator right, level, position =>
    let sign := position + left.tokens.length
    left.checks level position ++
      (right.checks level (sign + 1) ++
        [⟨sign, .completes (.binary operator.1.text left.tree right.tree)⟩])
  | _, .apply function argument, level, position =>
    let start := position + function.tokens.length
    function.checks level position ++
      (argument.checks level start ++ [⟨start, .completes (.apply function.tree argument.tree)⟩])
  | _, .number token, _, position => [⟨position, .converts token.1.text⟩]
  | _, .name _, _, _ => []
  | _, .paren _ inside _, level, position => inside.checks level (position + 1)
  | _, .lambda _ parameter _ body, level, position =>
    body.checks level (position + 3) ++
      [⟨position, .completes (.lambda parameter.1.text body.tree)⟩]

def Checkpoint.FailsFirst (point : Checkpoint) (points : List Checkpoint) : Prop :=
  ∃ before after, points = before ++ point :: after ∧
    (∀ earlier ∈ before, earlier.check.passes = true) ∧ point.check.Oversteps

def firstFailing (points : List Checkpoint) : Option Checkpoint :=
  points.find? fun point => !point.check.passes

theorem firstFailing_append (first second : List Checkpoint) :
    firstFailing (first ++ second) = (firstFailing first).or (firstFailing second) :=
  List.find?_append

/-! ## Checks and violations -/

theorem drop_add_length {all rest : List Token} {position : Nat} (used : List Token)
    (ahead : all.drop position = used ++ rest) : all.drop (position + used.length) = rest := by
  rw [← List.drop_drop, ahead, List.drop_left]

theorem firstFailing_completes (node : Expr) (all : List Token) (position : Nat) :
    (firstFailing [⟨position, .completes node⟩]).map
        (fun point => point.check.fault (all.drop point.position)) =
      tooTall node (all.drop position) := by
  unfold tooTall
  by_cases short : node.height ≤ Expr.maxHeight
  · simp [firstFailing, Check.passes, short]
  · simp [firstFailing, Check.passes, Check.fault, short]

/-- The first violation of a phrase in some tokens is the fault of its first failing check. -/
theorem Phrase.violation_eq_firstFailing {rule : Rule} (phrase : Phrase rule) {level : Nat}
    (within : level ≤ maxNesting) {all rest : List Token} {position : Nat}
    (ahead : all.drop position = phrase.tokens ++ rest) :
    phrase.violation (maxNesting - level) rest =
      (firstFailing (phrase.checks level position)).map
        fun point => point.check.fault (all.drop point.position) := by
  induction phrase generalizing level rest position with
  | @inner rule below passes phrase ih =>
    cases rule with
    | expression =>
      by_cases deepest : level = maxNesting
      · subst deepest
        simp [firstFailing, Check.passes, Check.fault, ahead]
      · have fewer : maxNesting - level = (maxNesting - (level + 1)) + 1 := by omega
        have passes : level + 1 ≤ maxNesting := by omega
        rw [fewer]
        simp only [violation, checks, firstFailing]
        rw [List.find?_cons_of_neg (by simp [Check.passes, passes])]
        exact ih passes ahead
    | _ => exact ih within ahead
  | letIn keyword bound equals value inWord body valueIh bodyIh =>
    simp only [tokens, List.cons_append, List.append_assoc] at ahead
    have atValue := drop_add_length [keyword.1, bound.1, equals.1] ahead
    have atIn := drop_add_length _ atValue
    have atBody := drop_add_length [inWord.1] atIn
    simp only [violation, checks, firstFailing_append, Option.map_or]
    rw [valueIh within atValue, bodyIh within atBody, firstFailing_completes, ahead]
    rfl
  | ifThen keyword condition thenWord thenBranch elseWord elseBranch conditionIh thenIh elseIh =>
    simp only [tokens, List.cons_append, List.append_assoc] at ahead
    have atCondition := drop_add_length [keyword.1] ahead
    have atThen := drop_add_length [thenWord.1] (drop_add_length _ atCondition)
    have atElse := drop_add_length [elseWord.1] (drop_add_length _ atThen)
    simp only [violation, checks, firstFailing_append, Option.map_or]
    rw [conditionIh within atCondition, thenIh within atThen, elseIh within atElse,
      firstFailing_completes, ahead]
    rfl
  | join passes left operator right leftIh rightIh =>
    simp only [tokens, List.cons_append, List.append_assoc] at ahead
    have atSign := drop_add_length _ ahead
    have atRight := drop_add_length [operator.1] atSign
    simp only [violation, checks, firstFailing_append, Option.map_or]
    rw [leftIh within ahead, rightIh within atRight, firstFailing_completes, atSign]
    rfl
  | apply function argument functionIh argumentIh =>
    simp only [tokens, List.append_assoc] at ahead
    have atArgument := drop_add_length _ ahead
    simp only [violation, checks, firstFailing_append, Option.map_or]
    rw [functionIh within ahead, argumentIh within atArgument, firstFailing_completes, atArgument]
  | number token =>
    simp only [tokens, List.cons_append, List.nil_append] at ahead
    simp only [violation, checks, firstFailing]
    cases read : Numeral.readReal? token.1.text with
    | none => simp [Check.passes, Check.fault, read]
    | some value =>
      by_cases infinite : value.isInfinite = true
      · simp [Check.passes, Check.fault, read, infinite, ahead]
      · simp [Check.passes, read, infinite]
  | name token => rfl
  | paren opening inside closing insideIh =>
    simp only [tokens, List.cons_append, List.append_assoc, List.nil_append] at ahead
    exact insideIh within (drop_add_length [opening.1] ahead)
  | lambda keyword parameter arrow body bodyIh =>
    simp only [tokens, List.cons_append] at ahead
    have atBody := drop_add_length [keyword.1, parameter.1, arrow.1] ahead
    simp only [violation, checks, firstFailing_append, Option.map_or]
    rw [bodyIh within atBody, firstFailing_completes, ahead]
    rfl

theorem Phrase.firstFailing_eq_none_iff {rule : Rule} (phrase : Phrase rule) {level : Nat}
    (within : level ≤ maxNesting) (position : Nat) :
    firstFailing (phrase.checks level position) = none ↔ phrase.Fits (maxNesting - level) := by
  have ahead : (List.replicate position default ++ phrase.tokens).drop position =
      phrase.tokens ++ [] := by
    simp
  rw [← phrase.violation_eq_none_iff _ [], phrase.violation_eq_firstFailing within ahead,
    Option.map_eq_none_iff]

theorem Phrase.height_le_of_passes {rule : Rule} (phrase : Phrase rule) {level : Nat}
    (within : level ≤ maxNesting) {position : Nat}
    (passes : firstFailing (phrase.checks level position) = none) :
    phrase.tree.height ≤ Expr.maxHeight :=
  ((phrase.firstFailing_eq_none_iff within position).mp passes).2.1

/-! ## The first failing check -/

theorem oversteps_of_completes {node : Expr} {position : Nat} {point : Checkpoint}
    (failing : firstFailing [⟨position, .completes node⟩] = some point)
    (parts : node.height ≤ Expr.maxHeight + 1) : point.check.Oversteps := by
  by_cases short : node.height ≤ Expr.maxHeight
  · simp [firstFailing, Check.passes, short] at failing
  · simp only [firstFailing, Check.passes, short, decide_false, Bool.not_false,
      List.find?_cons_of_pos, Option.some.injEq] at failing
    subst failing
    simp only [Check.Oversteps]
    omega

theorem Phrase.oversteps_firstFailing {rule : Rule} (phrase : Phrase rule)
    (words : ∀ token ∈ phrase.tokens, token.IsWord) {level : Nat} (within : level ≤ maxNesting)
    {position : Nat} {point : Checkpoint}
    (failing : firstFailing (phrase.checks level position) = some point) :
    point.check.Oversteps := by
  induction phrase generalizing level position with
  | @inner rule below passes phrase ih =>
    cases rule with
    | expression =>
      by_cases deepest : level = maxNesting
      · subst deepest
        simp only [checks, firstFailing] at failing
        rw [List.find?_cons_of_pos (by simp [Check.passes])] at failing
        obtain rfl := Option.some.inj failing
        rfl
      · have inside : level + 1 ≤ maxNesting := by omega
        simp only [checks, firstFailing] at failing
        rw [List.find?_cons_of_neg (by simp [Check.passes, inside])] at failing
        exact ih words inside failing
    | _ => exact ih words within failing
  | letIn keyword bound equals value inWord body valueIh bodyIh =>
    simp only [tokens, List.forall_mem_cons, List.forall_mem_append] at words
    simp only [checks, firstFailing_append, Option.or_eq_some_iff] at failing
    rcases failing with inValue | ⟨valuePasses, inBody | ⟨bodyPasses, tall⟩⟩
    · exact valueIh words.2.2.2.1 within inValue
    · exact bodyIh words.2.2.2.2.2 within inBody
    · have value := value.height_le_of_passes within valuePasses
      have body := body.height_le_of_passes within bodyPasses
      refine oversteps_of_completes tall ?_
      simp only [Expr.height]
      omega
  | ifThen keyword condition thenWord thenBranch elseWord elseBranch conditionIh thenIh elseIh =>
    simp only [tokens, List.forall_mem_cons, List.forall_mem_append] at words
    simp only [checks, firstFailing_append, Option.or_eq_some_iff] at failing
    rcases failing with
      inCondition | ⟨conditionPasses, inThen | ⟨thenPasses, inElse | ⟨elsePasses, tall⟩⟩⟩
    · exact conditionIh words.2.1 within inCondition
    · exact thenIh words.2.2.2.1 within inThen
    · exact elseIh words.2.2.2.2.2 within inElse
    · have condition := condition.height_le_of_passes within conditionPasses
      have thenBranch := thenBranch.height_le_of_passes within thenPasses
      have elseBranch := elseBranch.height_le_of_passes within elsePasses
      refine oversteps_of_completes tall ?_
      simp only [Expr.height]
      omega
  | join passes left operator right leftIh rightIh =>
    simp only [tokens, List.forall_mem_cons, List.forall_mem_append] at words
    simp only [checks, firstFailing_append, Option.or_eq_some_iff] at failing
    rcases failing with inLeft | ⟨leftPasses, inRight | ⟨rightPasses, tall⟩⟩
    · exact leftIh words.1 within inLeft
    · exact rightIh words.2.2 within inRight
    · have left := left.height_le_of_passes within leftPasses
      have right := right.height_le_of_passes within rightPasses
      refine oversteps_of_completes tall ?_
      simp only [Expr.height]
      omega
  | apply function argument functionIh argumentIh =>
    simp only [tokens, List.forall_mem_append] at words
    simp only [checks, firstFailing_append, Option.or_eq_some_iff] at failing
    rcases failing with inFunction | ⟨functionPasses, inArgument | ⟨argumentPasses, tall⟩⟩
    · exact functionIh words.1 within inFunction
    · exact argumentIh words.2 within inArgument
    · have function := function.height_le_of_passes within functionPasses
      have argument := argument.height_le_of_passes within argumentPasses
      refine oversteps_of_completes tall ?_
      simp only [Expr.height]
      omega
  | number token =>
    obtain ⟨size, read⟩ := (words token.1 (by simp)).exists_readReal? token.2
    by_cases infinite : (Binary64.ofSize false size).isInfinite = true
    · simp only [checks, firstFailing, Check.passes, read, infinite, Bool.not_true, Bool.not_false,
        List.find?_cons_of_pos, Option.some.injEq] at failing
      subst failing
      exact ⟨_, read, infinite⟩
    · simp [firstFailing, Check.passes, read, infinite] at failing
  | name token => simp [firstFailing] at failing
  | paren opening inside closing insideIh =>
    simp only [tokens, List.forall_mem_cons, List.forall_mem_append] at words
    exact insideIh words.2.1 within failing
  | lambda keyword parameter arrow body bodyIh =>
    simp only [tokens, List.forall_mem_cons] at words
    simp only [checks, firstFailing_append, Option.or_eq_some_iff] at failing
    rcases failing with inBody | ⟨bodyPasses, tall⟩
    · exact bodyIh words.2.2.2 within inBody
    · have body := body.height_le_of_passes within bodyPasses
      refine oversteps_of_completes tall ?_
      simp only [Expr.height]
      omega

theorem Phrase.position_of_mem_checks {rule : Rule} (phrase : Phrase rule) {level position : Nat}
    {point : Checkpoint} (member : point ∈ phrase.checks level position) :
    position ≤ point.position ∧ point.position < position + phrase.tokens.length := by
  induction phrase generalizing level position with
  | @inner rule below passes phrase ih =>
    cases rule with
    | expression =>
      rcases List.mem_cons.mp member with rfl | inside
      · have filled := List.length_pos_iff.mpr phrase.tokens_ne_nil
        simp only [tokens]
        omega
      · exact ih inside
    | _ => exact ih member
  | letIn keyword bound equals value inWord body valueIh bodyIh =>
    simp only [checks, List.mem_append, List.mem_singleton] at member
    simp only [tokens, List.length_cons, List.length_append]
    rcases member with inValue | inBody | rfl
    · have := valueIh inValue
      omega
    · have := bodyIh inBody
      omega
    · simp only
      omega
  | ifThen keyword condition thenWord thenBranch elseWord elseBranch conditionIh thenIh elseIh =>
    simp only [checks, List.mem_append, List.mem_singleton] at member
    simp only [tokens, List.length_cons, List.length_append]
    rcases member with inCondition | inThen | inElse | rfl
    · have := conditionIh inCondition
      omega
    · have := thenIh inThen
      omega
    · have := elseIh inElse
      omega
    · simp only
      omega
  | join passes left operator right leftIh rightIh =>
    simp only [checks, List.mem_append, List.mem_singleton] at member
    simp only [tokens, List.length_cons, List.length_append]
    rcases member with inLeft | inRight | rfl
    · have := leftIh inLeft
      omega
    · have := rightIh inRight
      omega
    · simp only
      omega
  | apply function argument functionIh argumentIh =>
    have filled := List.length_pos_iff.mpr argument.tokens_ne_nil
    simp only [checks, List.mem_append, List.mem_singleton] at member
    simp only [tokens, List.length_append]
    rcases member with inFunction | inArgument | rfl
    · have := functionIh inFunction
      omega
    · have := argumentIh inArgument
      omega
    · simp only
      omega
  | number token =>
    simp only [checks, List.mem_singleton] at member
    subst member
    simp
  | name token => simp at member
  | paren opening inside closing insideIh =>
    have := insideIh member
    simp only [tokens, List.length_cons, List.length_append]
    omega
  | lambda keyword parameter arrow body bodyIh =>
    simp only [checks, List.mem_append, List.mem_singleton] at member
    simp only [tokens, List.length_cons]
    rcases member with inBody | rfl
    · have := bodyIh inBody
      omega
    · simp only
      omega

end Grammar

namespace Program

open Grammar

theorem locate_fault {check : Check} {all : List Token} {position : Nat} {token : Token}
    (oversteps : check.Oversteps) (found : all[position]? = some token) :
    (check.fault (all.drop position)).locate all.length =
      .mismatch ⟨check.expectation, position, some token⟩ := by
  have within : position < all.length := (List.getElem?_eq_some_iff.mp found).1
  have index : all.length - (all.length - position) = position := by omega
  cases check with
  | opens level => simp [Check.fault, Check.expectation, Fault.locate, found, index]
  | completes node => simp [Check.fault, Check.expectation, Fault.locate, found, index]
  | converts text =>
    obtain ⟨value, read, _⟩ := oversteps
    simp [Check.fault, Check.expectation, Fault.locate, read, found, index]

/-- Where a phrase oversteps a limit, reading fails at the first check that does not pass. -/
theorem exists_failsFirst_of_not_fits {phrase : Phrase .expression}
    (words : ∀ token ∈ phrase.tokens, token.IsWord) (greedy : phrase.GreedyBefore [])
    (beyond : ¬ phrase.Fits maxNesting) :
    ∃ (point : Checkpoint) (token : Token), point.FailsFirst (phrase.checks 0 0) ∧
      phrase.tokens[point.position]? = some token ∧
      ofTokens true phrase.tokens =
        .error (.mismatch ⟨point.check.expectation, point.position, some token⟩) := by
  have within : 0 ≤ maxNesting := Nat.zero_le _
  cases failing : firstFailing (phrase.checks 0 0) with
  | none => exact absurd ((phrase.firstFailing_eq_none_iff within 0).mp failing) beyond
  | some point =>
    have settles := reads_program true greedy trivial (fun _ => rfl) maxNesting
    have whole : phrase.tokens.drop 0 = phrase.tokens ++ [] := by simp
    have violation := phrase.violation_eq_firstFailing within whole
    rw [failing, Nat.sub_zero] at violation
    rw [List.append_nil, violation] at settles
    obtain ⟨rest, read⟩ := settles
    obtain ⟨_, before, after, split, passes⟩ := List.find?_eq_some_iff_append.mp failing
    have member : point ∈ phrase.checks 0 0 := by
      rw [split]
      simp
    have position : point.position < phrase.tokens.length := by
      have := (phrase.position_of_mem_checks member).2
      omega
    have oversteps := phrase.oversteps_firstFailing words within failing
    have found := List.getElem?_eq_getElem position
    refine ⟨point, _, ⟨before, after, split, ?_, oversteps⟩, found, ?_⟩
    · intro earlier member
      simpa using passes earlier member
    · rw [ofTokens_of_error read]
      exact congrArg Except.error (locate_fault oversteps found)

/-- The words of a text that are a phrase are read if and only if the phrase keeps within the
limits.  Otherwise reading fails at the first check that does not pass: at an expression one level
too deep, at a node one level too tall or at an infinite literal. -/
theorem ofTokens_eq_ok_iff_fits {text : String} {phrase : Phrase .expression}
    (lexed : tokenize text = .ok phrase.tokens) (widest : phrase.Widest) :
    (ofTokens true phrase.tokens = .ok phrase.tree ↔
      phrase.levels ≤ maxNesting ∧ phrase.tree.height ≤ Expr.maxHeight ∧
        ∀ token ∈ phrase.tokens, token.HasFiniteValue) ∧
    (ofTokens true phrase.tokens ≠ .ok phrase.tree →
      ∃ (point : Checkpoint) (token : Token), point.FailsFirst (phrase.checks 0 0) ∧
        phrase.tokens[point.position]? = some token ∧
        ofTokens true phrase.tokens =
          .error (.mismatch ⟨point.check.expectation, point.position, some token⟩)) := by
  have greedy := greedy_of_widest widest
  have words := isWord_of_tokenize lexed
  refine ⟨⟨fun read => ?_, fun fits => ofTokens_of_fits greedy fits⟩, fun failed => ?_⟩
  · by_contra beyond
    obtain ⟨_, _, _, _, failed⟩ := exists_failsFirst_of_not_fits words greedy beyond
    simp [read] at failed
  · exact exists_failsFirst_of_not_fits words greedy fun fits =>
      failed (ofTokens_of_fits greedy fits)

def nines : String := String.ofList (literalText (List.replicate 400 '9') [])

theorem isDigit_of_mem_replicate {count : Nat} :
    ∀ c ∈ List.replicate count '9', c.isDigit = true := by
  intro c member
  rw [List.eq_of_mem_replicate member]
  rfl

theorem replicate_ne_nil {count : Nat} (positive : 0 < count) :
    List.replicate count '9' ≠ [] := by
  rw [ne_eq, List.replicate_eq_nil_iff]
  omega

theorem tokenize_nines : tokenize nines = .ok [⟨.number, nines, ⟨1, 1⟩⟩] := by
  refine Cursor.Reads.tokenize_eq ?_
  rw [nines, String.toList_ofList]
  refine Cursor.reads_word fun rest ends => ?_
  exact Word.first?_literal ends (replicate_ne_nil (by decide)) isDigit_of_mem_replicate
    (List.forall_mem_nil _)

theorem readReal?_nines : Numeral.readReal? nines = some (.infinite false) := by
  have huge : (literalDecimal (List.replicate 400 '9') []).nearest = none := by decide +kernel
  rw [nines, Numeral.readReal?_literal isDigit_of_mem_replicate (List.forall_mem_nil _)
    (replicate_ne_nil (by decide)), huge]
  rfl

theorem ofTokens_of_nines :
    ofTokens true [⟨.number, nines, ⟨1, 1⟩⟩] =
      .error (.mismatch ⟨.finiteNumber, 0, some ⟨.number, nines, ⟨1, 1⟩⟩⟩) := by
  let literal : Phrase .atom := .number ⟨⟨.number, nines, ⟨1, 1⟩⟩, rfl⟩
  let phrase : Phrase .expression :=
    .inner rfl (.inner rfl (.inner rfl (.inner rfl (.inner rfl (.inner rfl (.inner rfl literal))))))
  have widest : phrase.Widest := widest_of_greedy trivial
  have words : tokenize nines = .ok phrase.tokens := tokenize_nines
  obtain ⟨fits, fails⟩ := ofTokens_eq_ok_iff_fits words widest
  have beyond : ofTokens true phrase.tokens ≠ .ok phrase.tree := by
    intro read
    obtain ⟨value, read', finite⟩ := (fits.mp read).2.2 ⟨.number, nines, ⟨1, 1⟩⟩
      (by simp [phrase, literal]) rfl
    obtain rfl := Option.some.inj (readReal?_nines.symm.trans read')
    simp [Binary64.isInfinite] at finite
  obtain ⟨point, token, ⟨before, after, split, _, oversteps⟩, found, failed⟩ := fails beyond
  have member : point ∈ phrase.checks 0 0 := by
    rw [split]
    simp
  simp only [phrase, literal, Phrase.checks, List.mem_cons, List.not_mem_nil, or_false] at member
  rcases member with rfl | rfl
  · simp [Check.Oversteps, maxNesting] at oversteps
  · obtain rfl : _ = token := Option.some.inj found
    exact failed

end Program

end Funlet
