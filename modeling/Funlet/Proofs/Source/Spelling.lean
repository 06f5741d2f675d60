import Funlet.Proofs.Grammar.Limits
import Funlet.Proofs.Source.Writable
import Funlet.Proofs.Token.Written

/-!
# The source of a tree as a phrase

The source of a tree is a phrase whose tree is the tree itself.  A text that is a phrase of one rule
is a phrase of every rule that binds less tightly, and between parentheses it is an atom, so the
levels of the printer agree with the rules of the grammar.
-/

set_option autoImplicit false

namespace Funlet

open Grammar

/-! ## Nesting -/

/-- The number of expressions open at once in a text of one level at a place that requires another:
one more than inside it if it is an expression there or stands between parentheses. -/
def placedNesting (required level inside : Nat) : Nat :=
  if required = Level.expression ∨ level < required then inside + 1 else inside

def Expr.nestingAt (required : Nat) : Expr → Nat
  | .number _ => placedNesting required Level.atom 0
  | .name _ => placedNesting required Level.atom 0
  | .binary operator left right =>
    let level := (Operator.level? operator).getD Level.atom
    placedNesting required level (max (left.nestingAt level) (right.nestingAt (level + 1)))
  | .lambda _ body => placedNesting required Level.expression (body.nestingAt Level.expression)
  | .apply function argument =>
    placedNesting required Level.application
      (max (function.nestingAt Level.application) (argument.nestingAt Level.atom))
  | .letIn _ value body =>
    placedNesting required Level.expression
      (max (value.nestingAt Level.expression) (body.nestingAt Level.expression))
  | .ifThen condition thenBranch elseBranch =>
    placedNesting required Level.expression
      (max (condition.nestingAt Level.expression)
        (max (thenBranch.nestingAt Level.expression) (elseBranch.nestingAt Level.expression)))
  | .hole => 0

def Expr.nesting (tree : Expr) : Nat := tree.nestingAt Level.expression

/-! ## Spelling -/

/-- Wherever it stands, a text is read as the tokens of a phrase of a rule with a tree and a
nesting.  Its numbers are finite, and it is greedy before any tokens if its rule begins with an
operand. -/
def Spells (rule : Rule) (text : List Char) (tree : Expr) (nesting : Nat) : Prop :=
  ∀ place : Place, ∃ phrase : Phrase rule, Cursor.Reads place text phrase.tokens ∧
    phrase.tree = tree ∧ phrase.levels = nesting ∧
    (∀ token ∈ phrase.tokens, token.HasFiniteValue) ∧
    ∀ rest, (rule.demand = .expression → Ends .expression rest) → phrase.GreedyBefore rest

/-- The rule whose phrases are texts of a level.  Those of the lowest are not yet expressions within
an expression. -/
def Level.rule : Nat → Rule
  | 0 => .letForm
  | 1 => .comparison
  | 2 => .additive
  | 3 => .multiplicative
  | 4 => .application
  | _ => .atom

def Level.ruleAt (required : Nat) : Rule :=
  if required = Level.expression then .expression else Level.rule required

/-- What a rule takes over from the rule below is taken over from a level by every lower one. -/
theorem Level.lower_rule {holds : Rule → Prop}
    (inner : ∀ {rule below : Rule}, rule.below = some below → rule ≠ .expression →
      holds below → holds rule)
    {level required : Nat} (fits : required ≤ level) (ofLevel : holds (Level.rule level)) :
    holds (Level.rule required) := by
  induction level, fits using Nat.le_induction with
  | base => exact ofLevel
  | succ level _ ih =>
    apply ih
    match level with
    | 0 =>
      have choice : holds .ifForm := inner rfl (by decide) ofLevel
      exact inner rfl (by decide) choice
    | 1 => exact inner rfl (by decide) ofLevel
    | 2 => exact inner rfl (by decide) ofLevel
    | 3 => exact inner rfl (by decide) ofLevel
    | 4 => exact inner rfl (by decide) ofLevel
    | _ + 5 => exact ofLevel

section Spells

variable {text : List Char} {tree : Expr} {nesting : Nat}

theorem Spells.inner {rule below : Rule} (passes : rule.below = some below)
    (other : rule ≠ .expression) (spells : Spells below text tree nesting) :
    Spells rule text tree nesting := by
  intro place
  obtain ⟨phrase, reads, sameTree, sameLevels, finite, greedy⟩ := spells place
  refine ⟨.inner passes phrase, reads, sameTree, ?_, finite, fun rest ends => greedy rest ?_⟩
  · cases rule <;> first | exact absurd rfl other | exact sameLevels
  · intro demand
    apply ends
    cases rule <;> simp only [Rule.below, Option.some.injEq, reduceCtorEq] at passes <;>
      subst passes <;> first | rfl | exact demand

theorem Spells.expression (spells : Spells .letForm text tree nesting) :
    Spells .expression text tree (nesting + 1) := by
  intro place
  obtain ⟨phrase, reads, sameTree, sameLevels, finite, greedy⟩ := spells place
  exact ⟨.inner rfl phrase, reads, sameTree, congrArg (· + 1) sameLevels, finite, greedy⟩

/-- A text of a level can stand where a lower one is required. -/
theorem Spells.lower (level : Nat) {required : Nat} (fits : required ≤ level)
    (spells : Spells (Level.rule level) text tree nesting) :
    Spells (Level.rule required) text tree nesting :=
  Level.lower_rule (fun passes other => Spells.inner passes other) fits spells

theorem Spells.parenthesized (spells : Spells .expression text tree nesting) :
    Spells .atom ('(' :: (text ++ [')'])) tree nesting := by
  intro place
  obtain ⟨phrase, reads, sameTree, sameLevels, finite, greedy⟩ := spells (place.after ['('])
  let opening : Terminal .leftParen := ⟨⟨.leftParen, "(", place⟩, rfl⟩
  let closing : Terminal .rightParen := ⟨⟨.rightParen, ")", place.after ('(' :: text)⟩, rfl⟩
  refine ⟨.paren opening phrase closing, reads.parenthesized, sameTree, sameLevels, ?_, ?_⟩
  · simp only [Phrase.tokens, List.forall_mem_cons, List.forall_mem_append]
    exact ⟨Token.hasFiniteValue_terminal opening, finite,
      Token.hasFiniteValue_terminal closing, by simp⟩
  · exact fun rest _ => greedy _ fun _ => ends_terminal _ (.inl rfl) rest

theorem Spells.placed (level : Nat) {required : Nat} {text : String}
    (spells : Spells (Level.rule level) text.toList tree nesting) :
    Spells (Level.ruleAt required) (Expr.placed required level text).toList tree
      (placedNesting required level nesting) := by
  have whole : Spells .expression text.toList tree (nesting + 1) :=
    (spells.lower level (Nat.zero_le level)).expression
  unfold Level.ruleAt Expr.placed placedNesting
  by_cases lowest : required = Level.expression
  · have fits : ¬ level < required := by simp [lowest, Level.expression]
    rw [if_pos lowest, if_neg fits, if_pos (.inl lowest)]
    exact whole
  · rw [if_neg lowest]
    by_cases loose : level < required
    · have shape : ("(" ++ text ++ ")").toList = '(' :: (text.toList ++ [')']) := by simp
      rw [if_pos loose, if_pos (.inr loose), shape]
      exact Spells.lower (required + 5) (Nat.le_add_right _ _) whole.parenthesized
    · rw [if_neg loose, if_neg (by simp [lowest, loose])]
      exact spells.lower level (Nat.le_of_not_lt loose)

end Spells

/-! ## The forms of a tree -/

theorem spells_name {word : String} (isName : Word.isName word.toList = true) :
    Spells .atom word.toList (.name word) 0 := by
  intro place
  refine ⟨.name ⟨⟨.name, String.ofList word.toList, place⟩, rfl⟩,
    Cursor.reads_word fun _ ends => Word.first?_name ends isName, ?_, rfl, ?_, fun _ _ => trivial⟩
  · simp
  · simp [Token.HasFiniteValue]

theorem spells_number {value : Binary64} {text : String} (written : value.literal? = some text) :
    Spells .atom text.toList (.number value.unsigned) 0 := by
  intro place
  obtain ⟨before, after, shape, filled, beforeDigits, afterDigits, read⟩ :=
    Binary64.literal?_spells written
  have finite : value.unsigned.isInfinite = false := by
    have writable := Binary64.exists_literal_iff.mp ⟨text, written⟩
    cases value <;> first | rfl | exact writable.elim
  refine ⟨.number ⟨⟨.number, String.ofList text.toList, place⟩, rfl⟩,
    Cursor.reads_word fun rest ends => ?_, ?_, rfl, ?_, fun _ _ => trivial⟩
  · rw [shape]
    exact Word.first?_literal ends filled beforeDigits afterDigits
  · simp [Token.value, read]
  · simp [Token.HasFiniteValue, read, finite]

section Forms

variable {first second third : List Char} {n m k : Nat}

theorem spells_join {rule below : Rule} (passes : rule.below = some below) {operator : String}
    (known : operator ∈ rule.operators) {left right : Expr} (leftSpells : Spells rule first left n)
    (rightSpells : Spells below second right m) :
    Spells rule (first ++ ' ' :: (operator.toList ++ ' ' :: second)) (.binary operator left right)
      (max n m) := by
  have mark : Word.mark? operator.toList = some .operator := by
    revert known
    cases rule <;> revert operator <;> decide
  have operands : rule.demand = .operand ∧ below.demand = .operand := by
    cases rule <;> simp only [Rule.below, Option.some.injEq, reduceCtorEq] at passes <;>
      subst passes <;> first | exact ⟨rfl, rfl⟩ | simp [Rule.operators] at known
  intro place
  obtain ⟨leftPhrase, leftReads, rfl, rfl, leftFinite, leftGreedy⟩ := leftSpells place
  let signPlace := place.after (first ++ [' '])
  obtain ⟨rightPhrase, rightReads, rfl, rfl, rightFinite, rightGreedy⟩ :=
    rightSpells (signPlace.after (operator.toList ++ [' ']))
  let sign : Sign rule.operators :=
    ⟨⟨.operator, String.ofList operator.toList, signPlace⟩, rfl, by simpa using known⟩
  refine ⟨.join passes leftPhrase sign rightPhrase,
    leftReads.spaced ((Cursor.reads_mark mark).spaced rightReads), ?_, ?_, ?_, fun rest _ => ?_⟩
  · simp [sign]
  · simp
  · simp only [Phrase.tokens, List.forall_mem_cons, List.forall_mem_append]
    exact ⟨leftFinite, Token.hasFiniteValue_sign sign, rightFinite⟩
  · exact ⟨leftGreedy _ (by simp [operands.1]), rightGreedy _ (by simp [operands.2])⟩

theorem spells_apply {function argument : Expr}
    (functionSpells : Spells .application first function n)
    (argumentSpells : Spells .atom second argument m) :
    Spells .application (first ++ ' ' :: second) (.apply function argument) (max n m) := by
  intro place
  obtain ⟨functionPhrase, functionReads, rfl, rfl, functionFinite, functionGreedy⟩ :=
    functionSpells place
  obtain ⟨argumentPhrase, argumentReads, rfl, rfl, argumentFinite, argumentGreedy⟩ :=
    argumentSpells (place.after (first ++ [' ']))
  refine ⟨.apply functionPhrase argumentPhrase, functionReads.spaced argumentReads, rfl, rfl, ?_,
    fun rest _ => ?_⟩
  · simp only [Phrase.tokens, List.forall_mem_append]
    exact ⟨functionFinite, argumentFinite⟩
  · exact ⟨functionGreedy _ (by simp [Rule.demand]), argumentGreedy _ (by simp [Rule.demand])⟩

def lambdaText (parameter : String) (body : List Char) : List Char :=
  "fun".toList ++ ' ' :: (parameter.toList ++ ' ' :: ("->".toList ++ ' ' :: body))

/-- A function goes on as far as it can, so it is greedy only where an expression ends. -/
theorem exists_lambda {parameter : String} (isName : Word.isName parameter.toList = true)
    {body : Expr} (bodySpells : Spells .expression first body n) (place : Place) :
    ∃ phrase : Phrase .lambdaForm,
      Cursor.Reads place (lambdaText parameter first) phrase.tokens ∧
      phrase.tree = .lambda parameter body ∧ phrase.levels = n ∧
      (∀ token ∈ phrase.tokens, token.HasFiniteValue) ∧
      ∀ rest, Ends .expression rest → phrase.GreedyBefore rest := by
  let namePlace := place.after ("fun".toList ++ [' '])
  let arrowPlace := namePlace.after (parameter.toList ++ [' '])
  obtain ⟨bodyPhrase, bodyReads, rfl, rfl, bodyFinite, bodyGreedy⟩ :=
    bodySpells (arrowPlace.after ("->".toList ++ [' ']))
  let keyword : Terminal .lambda := ⟨⟨.lambda, "fun", place⟩, rfl⟩
  let name : Terminal .name := ⟨⟨.name, String.ofList parameter.toList, namePlace⟩, rfl⟩
  let arrow : Terminal .arrow := ⟨⟨.arrow, "->", arrowPlace⟩, rfl⟩
  refine ⟨.lambda keyword name arrow bodyPhrase,
    (Cursor.reads_keyword rfl).spaced ((Cursor.reads_word fun _ ends =>
      Word.first?_name ends isName).spaced ((Cursor.reads_mark rfl).spaced bodyReads)),
    ?_, rfl, ?_, fun rest ends => ?_⟩
  · simp [name]
  · simp only [Phrase.tokens, List.forall_mem_cons]
    exact ⟨Token.hasFiniteValue_terminal keyword, Token.hasFiniteValue_terminal name,
      Token.hasFiniteValue_terminal arrow, bodyFinite⟩
  · exact ⟨ends, bodyGreedy rest fun _ => ends⟩

theorem spells_lambda {parameter : String} (isName : Word.isName parameter.toList = true)
    {body : Expr} (bodySpells : Spells .expression first body n) :
    Spells .letForm (lambdaText parameter first) (.lambda parameter body) n := by
  intro place
  obtain ⟨phrase, reads, sameTree, sameLevels, finite, greedy⟩ :=
    exists_lambda isName bodySpells place
  let asOperand : Phrase .multiplicative := .inner rfl (.inner rfl (.inner rfl phrase))
  exact ⟨.inner rfl (.inner rfl (.inner rfl (.inner rfl asOperand))), reads, sameTree, sameLevels,
    finite, fun rest ends => greedy rest (ends rfl)⟩

/-- A function may be an argument without parentheses, though the printer writes them. -/
theorem spells_lambda_argument {parameter : String}
    (isName : Word.isName parameter.toList = true) {function body : Expr}
    (functionSpells : Spells .application first function n)
    (bodySpells : Spells .expression second body m) :
    Spells .letForm (first ++ ' ' :: lambdaText parameter second)
      (.apply function (.lambda parameter body)) (max n m) := by
  intro place
  obtain ⟨functionPhrase, functionReads, rfl, rfl, functionFinite, functionGreedy⟩ :=
    functionSpells place
  obtain ⟨phrase, reads, sameTree, sameLevels, finite, greedy⟩ :=
    exists_lambda isName bodySpells (place.after (first ++ [' ']))
  let application : Phrase .application := .apply functionPhrase (.inner rfl phrase)
  refine ⟨.inner rfl (.inner rfl (.inner rfl (.inner rfl (.inner rfl application)))),
    functionReads.spaced reads, congrArg (Expr.apply functionPhrase.tree) sameTree,
    congrArg (max functionPhrase.levels) sameLevels, ?_, fun rest ends => ?_⟩
  · simp only [application, Phrase.tokens, List.forall_mem_append]
    exact ⟨functionFinite, finite⟩
  · exact ⟨functionGreedy _ (by simp [Rule.demand]), greedy rest (ends rfl)⟩

theorem spells_letIn {bound : String} (isName : Word.isName bound.toList = true)
    {value body : Expr} (valueSpells : Spells .expression first value n)
    (bodySpells : Spells .expression second body m) :
    Spells .letForm
      ("let".toList ++ ' ' :: (bound.toList ++ ' ' :: ("=".toList ++ ' ' :: (first ++
        ' ' :: ("in".toList ++ ' ' :: second)))))
      (.letIn bound value body) (max n m) := by
  intro place
  let namePlace := place.after ("let".toList ++ [' '])
  let signPlace := namePlace.after (bound.toList ++ [' '])
  let valuePlace := signPlace.after ("=".toList ++ [' '])
  obtain ⟨valuePhrase, valueReads, rfl, rfl, valueFinite, valueGreedy⟩ := valueSpells valuePlace
  let inPlace := valuePlace.after (first ++ [' '])
  obtain ⟨bodyPhrase, bodyReads, rfl, rfl, bodyFinite, bodyGreedy⟩ :=
    bodySpells (inPlace.after ("in".toList ++ [' ']))
  let keyword : Terminal .letWord := ⟨⟨.letWord, "let", place⟩, rfl⟩
  let name : Terminal .name := ⟨⟨.name, String.ofList bound.toList, namePlace⟩, rfl⟩
  let sign : Sign ["="] := ⟨⟨.operator, "=", signPlace⟩, rfl, by simp⟩
  let inWord : Terminal .inWord := ⟨⟨.inWord, "in", inPlace⟩, rfl⟩
  refine ⟨.letIn keyword name sign valuePhrase inWord bodyPhrase,
    (Cursor.reads_keyword rfl).spaced ((Cursor.reads_word fun _ ends =>
      Word.first?_name ends isName).spaced ((Cursor.reads_mark rfl).spaced (valueReads.spaced
        ((Cursor.reads_keyword rfl).spaced bodyReads)))),
    ?_, rfl, ?_, fun rest ends => ?_⟩
  · simp [name]
  · simp only [Phrase.tokens, List.forall_mem_cons, List.forall_mem_append]
    exact ⟨Token.hasFiniteValue_terminal keyword, Token.hasFiniteValue_terminal name,
      Token.hasFiniteValue_sign sign, valueFinite, Token.hasFiniteValue_terminal inWord, bodyFinite⟩
  · exact ⟨valueGreedy _ fun _ => ends_terminal inWord (by simp) _,
      bodyGreedy rest fun _ => ends rfl⟩

theorem spells_ifThen {condition thenBranch elseBranch : Expr}
    (conditionSpells : Spells .expression first condition n)
    (thenSpells : Spells .expression second thenBranch m)
    (elseSpells : Spells .expression third elseBranch k) :
    Spells .ifForm
      ("if".toList ++ ' ' :: (first ++ ' ' :: ("then".toList ++ ' ' :: (second ++
        ' ' :: ("else".toList ++ ' ' :: third)))))
      (.ifThen condition thenBranch elseBranch) (max n (max m k)) := by
  intro place
  let conditionPlace := place.after ("if".toList ++ [' '])
  obtain ⟨conditionPhrase, conditionReads, rfl, rfl, conditionFinite, conditionGreedy⟩ :=
    conditionSpells conditionPlace
  let thenPlace := conditionPlace.after (first ++ [' '])
  let branchPlace := thenPlace.after ("then".toList ++ [' '])
  obtain ⟨thenPhrase, thenReads, rfl, rfl, thenFinite, thenGreedy⟩ := thenSpells branchPlace
  let elsePlace := branchPlace.after (second ++ [' '])
  obtain ⟨elsePhrase, elseReads, rfl, rfl, elseFinite, elseGreedy⟩ :=
    elseSpells (elsePlace.after ("else".toList ++ [' ']))
  let keyword : Terminal .ifWord := ⟨⟨.ifWord, "if", place⟩, rfl⟩
  let thenWord : Terminal .thenWord := ⟨⟨.thenWord, "then", thenPlace⟩, rfl⟩
  let elseWord : Terminal .elseWord := ⟨⟨.elseWord, "else", elsePlace⟩, rfl⟩
  refine ⟨.ifThen keyword conditionPhrase thenWord thenPhrase elseWord elsePhrase,
    (Cursor.reads_keyword rfl).spaced (conditionReads.spaced ((Cursor.reads_keyword rfl).spaced
      (thenReads.spaced ((Cursor.reads_keyword rfl).spaced elseReads)))),
    rfl, rfl, ?_, fun rest ends => ?_⟩
  · simp only [Phrase.tokens, List.forall_mem_cons, List.forall_mem_append]
    exact ⟨Token.hasFiniteValue_terminal keyword, conditionFinite,
      Token.hasFiniteValue_terminal thenWord, thenFinite,
      Token.hasFiniteValue_terminal elseWord, elseFinite⟩
  · exact ⟨conditionGreedy _ fun _ => ends_terminal thenWord (by simp) _,
      thenGreedy _ fun _ => ends_terminal elseWord (by simp) _, elseGreedy rest fun _ => ends rfl⟩

end Forms

theorem rule_of_level {operator : String} {level : Nat}
    (known : Operator.level? operator = some level) :
    (Level.rule level).below = some (Level.rule (level + 1)) ∧
      operator ∈ (Level.rule level).operators ∧ Level.ruleAt level = Level.rule level ∧
        Level.ruleAt (level + 1) = Level.rule (level + 1) := by
  simp only [Operator.level?, List.contains_eq_mem, decide_eq_true_eq] at known
  split at known
  · obtain rfl := Option.some.inj known
    exact ⟨rfl, by assumption, rfl, rfl⟩
  · split at known
    · obtain rfl := Option.some.inj known
      exact ⟨rfl, by assumption, rfl, rfl⟩
    · split at known
      · obtain rfl := Option.some.inj known
        exact ⟨rfl, by assumption, rfl, rfl⟩
      · simp at known

/-- The source of a tree, wherever it is put, is a phrase whose tree is the tree itself. -/
theorem spells_sourceAt {tree : Expr} {required : Nat} {text : String}
    (written : tree.sourceAt required = .ok text) :
    Spells (Level.ruleAt required) text.toList tree.unsigned (tree.nestingAt required) := by
  induction tree generalizing required text with
  | number value =>
    obtain ⟨literal, spelled, rfl⟩ := Expr.sourceAt_number_eq_ok_iff.mp written
    exact (spells_number spelled).placed Level.atom
  | name word =>
    obtain ⟨isName, rfl⟩ := Expr.sourceAt_name_eq_ok_iff.mp written
    exact (spells_name isName).placed Level.atom
  | binary operator left right leftIh rightIh =>
    obtain ⟨level, first, second, known, leftWritten, rightWritten, rfl⟩ :=
      Expr.sourceAt_binary_eq_ok_iff.mp written
    have shape : (first ++ " " ++ operator ++ " " ++ second).toList =
        first.toList ++ ' ' :: (operator.toList ++ ' ' :: second.toList) := by simp
    have nested : (Expr.binary operator left right).nestingAt required =
        placedNesting required level
          (max (left.nestingAt level) (right.nestingAt (level + 1))) := by
      simp [Expr.nestingAt, known]
    obtain ⟨passes, repeats, lower, upper⟩ := rule_of_level known
    rw [nested]
    refine Spells.placed level ?_
    rw [shape]
    exact spells_join passes repeats (lower ▸ leftIh leftWritten) (upper ▸ rightIh rightWritten)
  | lambda parameter body bodyIh =>
    obtain ⟨inside, bodyWritten, isName, rfl⟩ := Expr.sourceAt_lambda_eq_ok_iff.mp written
    have shape : ("fun " ++ parameter ++ " -> " ++ inside).toList =
        lambdaText parameter inside.toList := by simp [lambdaText]
    refine Spells.placed Level.expression ?_
    rw [shape]
    exact spells_lambda isName (bodyIh bodyWritten)
  | apply function argument functionIh argumentIh =>
    obtain ⟨first, second, functionWritten, argumentWritten, rfl⟩ :=
      Expr.sourceAt_apply_eq_ok_iff.mp written
    have shape : (first ++ " " ++ second).toList = first.toList ++ ' ' :: second.toList := by simp
    refine Spells.placed Level.application ?_
    rw [shape]
    exact spells_apply (functionIh functionWritten) (argumentIh argumentWritten)
  | letIn bound value body valueIh bodyIh =>
    obtain ⟨first, second, valueWritten, bodyWritten, isName, rfl⟩ :=
      Expr.sourceAt_letIn_eq_ok_iff.mp written
    have shape : ("let " ++ bound ++ " = " ++ first ++ " in " ++ second).toList =
        "let".toList ++ ' ' :: (bound.toList ++ ' ' :: ("=".toList ++ ' ' :: (first.toList ++
          ' ' :: ("in".toList ++ ' ' :: second.toList)))) := by simp
    refine Spells.placed Level.expression ?_
    rw [shape]
    exact spells_letIn isName (valueIh valueWritten) (bodyIh bodyWritten)
  | ifThen condition thenBranch elseBranch conditionIh thenIh elseIh =>
    obtain ⟨first, second, third, conditionWritten, thenWritten, elseWritten, rfl⟩ :=
      Expr.sourceAt_ifThen_eq_ok_iff.mp written
    have shape : ("if " ++ first ++ " then " ++ second ++ " else " ++ third).toList =
        "if".toList ++ ' ' :: (first.toList ++ ' ' :: ("then".toList ++ ' ' :: (second.toList ++
          ' ' :: ("else".toList ++ ' ' :: third.toList)))) := by simp
    have spells := spells_ifThen (conditionIh conditionWritten) (thenIh thenWritten)
      (elseIh elseWritten)
    refine Spells.placed Level.expression ?_
    rw [shape]
    exact spells.inner rfl (by decide)
  | hole => simp [Expr.sourceAt] at written

end Funlet
