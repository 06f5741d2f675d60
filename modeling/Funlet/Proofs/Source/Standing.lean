import Funlet.Proofs.Grammar.Places
import Funlet.Proofs.Source.Bracketed

/-!
# Where a tree with parentheses can stand

A bracketed tree can stand at a place if it binds as tightly as the place requires, and if no
function in it ends where it could go on.  Then, and only then, its text is read as its tree: it is
a phrase, and no other phrase has its words and its tree.
-/

set_option autoImplicit false

namespace Funlet

open Grammar

/-- How tightly an operator binds; an unknown one is taken for an atom. -/
def Operator.level (operator : String) : Nat := (Operator.level? operator).getD Level.atom

/-- A place for an expression: the level that is required there, and whether an expression ends
before whatever follows. -/
structure Slot where
  required : Nat
  ends : Prop

def Slot.closed : Slot := ⟨Level.expression, True⟩

namespace Bracketed

def Stands : Bracketed → Slot → Prop
  | number _, slot => slot.required ≤ Level.atom
  | name _, slot => slot.required ≤ Level.atom
  | binary operator left right, slot =>
    operator ∈ Operator.known ∧ slot.required ≤ Operator.level operator ∧
      left.Stands ⟨Operator.level operator, False⟩ ∧
      right.Stands ⟨Operator.level operator + 1, slot.ends⟩
  | lambda _ body, slot =>
    slot.required ≤ Level.atom ∧ slot.ends ∧ body.Stands ⟨Level.expression, slot.ends⟩
  | apply function argument, slot =>
    slot.required ≤ Level.application ∧ function.Stands ⟨Level.application, False⟩ ∧
      argument.Stands ⟨Level.atom, slot.ends⟩
  | letIn _ value body, slot =>
    slot.required ≤ Level.expression ∧ value.Stands .closed ∧
      body.Stands ⟨Level.expression, slot.ends⟩
  | ifThen condition thenBranch elseBranch, slot =>
    slot.required ≤ Level.expression ∧ condition.Stands .closed ∧ thenBranch.Stands .closed ∧
      elseBranch.Stands ⟨Level.expression, slot.ends⟩
  | paren inside, slot => slot.required ≤ Level.atom ∧ inside.Stands .closed

def levels : Bracketed → Nat
  | number _ => 0
  | name _ => 0
  | binary _ left right => max left.levels right.levels
  | lambda _ body => body.levels + 1
  | apply function argument => max function.levels argument.levels
  | letIn _ value body => max (value.levels + 1) (body.levels + 1)
  | ifThen condition thenBranch elseBranch =>
    max (condition.levels + 1) (max (thenBranch.levels + 1) (elseBranch.levels + 1))
  | paren inside => inside.levels + 1

/-- What can stand at a place can stand at one that requires less, and at one with another end
unless only the first one had an end. -/
theorem Stands.mono {bracketed : Bracketed} {slot wider : Slot} (stands : bracketed.Stands slot)
    (fits : wider.required ≤ slot.required) (ends : slot.ends → wider.ends) :
    bracketed.Stands wider := by
  induction bracketed generalizing slot wider with
  | number value => exact fits.trans stands
  | name text => exact fits.trans stands
  | binary operator left right leftIh rightIh =>
    obtain ⟨known, level, leftStands, rightStands⟩ := stands
    exact ⟨known, fits.trans level, leftStands, rightIh rightStands (Nat.le_refl _) ends⟩
  | lambda parameter body bodyIh =>
    obtain ⟨level, here, bodyStands⟩ := stands
    exact ⟨fits.trans level, ends here, bodyIh bodyStands (Nat.le_refl _) ends⟩
  | apply function argument functionIh argumentIh =>
    obtain ⟨level, functionStands, argumentStands⟩ := stands
    exact ⟨fits.trans level, functionStands, argumentIh argumentStands (Nat.le_refl _) ends⟩
  | letIn bound value body valueIh bodyIh =>
    obtain ⟨level, valueStands, bodyStands⟩ := stands
    exact ⟨fits.trans level, valueStands, bodyIh bodyStands (Nat.le_refl _) ends⟩
  | ifThen condition thenBranch elseBranch conditionIh thenIh elseIh =>
    obtain ⟨level, conditionStands, thenStands, elseStands⟩ := stands
    exact ⟨fits.trans level, conditionStands, thenStands,
      elseIh elseStands (Nat.le_refl _) ends⟩
  | paren inside insideIh => exact ⟨fits.trans stands.1, stands.2⟩

end Bracketed

/-! ## The parentheses of a phrase -/

namespace Grammar

def Rule.level : Rule → Nat
  | .expression => Level.expression
  | .letForm => Level.expression
  | .ifForm => Level.expression
  | .comparison => Level.comparison
  | .additive => Level.additive
  | .multiplicative => Level.multiplicative
  | .application => Level.application
  | .atom => Level.atom
  | .lambdaForm => Level.atom

theorem Rule.level_le_of_below {rule below : Rule} (passes : rule.below = some below) :
    rule.level ≤ below.level := by
  cases rule <;> simp only [Rule.below, Option.some.injEq, reduceCtorEq] at passes <;>
    subst passes <;> decide

theorem Rule.level_of_operator (rule : Rule) :
    ∀ operator ∈ rule.operators, Operator.level operator = rule.level := by
  cases rule <;> decide

theorem Rule.level_below_of_operator {rule below : Rule} (passes : rule.below = some below)
    {operator : String} (repeats : operator ∈ rule.operators) : below.level = rule.level + 1 := by
  cases rule <;> simp only [Rule.below, Option.some.injEq, reduceCtorEq] at passes <;>
    subst passes <;> first | rfl | simp [Rule.operators] at repeats

namespace Phrase

@[simp]
def bracketed : {rule : Rule} → Phrase rule → Bracketed
  | _, inner _ phrase => phrase.bracketed
  | _, letIn _ bound _ value _ body => .letIn bound.1.text value.bracketed body.bracketed
  | _, ifThen _ condition _ thenBranch _ elseBranch =>
    .ifThen condition.bracketed thenBranch.bracketed elseBranch.bracketed
  | _, join _ left operator right => .binary operator.1.text left.bracketed right.bracketed
  | _, apply function argument => .apply function.bracketed argument.bracketed
  | _, number token => .number token.1.value
  | _, name token => .name token.1.text
  | _, paren _ inside _ => .paren inside.bracketed
  | _, lambda _ parameter _ body => .lambda parameter.1.text body.bracketed

variable {rule : Rule} (phrase : Phrase rule)

theorem tree_bracketed : phrase.bracketed.tree = phrase.tree := by
  induction phrase with
  | inner passes phrase ih => exact ih
  | letIn keyword bound equals value inWord body valueIh bodyIh => simp [valueIh, bodyIh]
  | ifThen keyword condition thenWord thenBranch elseWord elseBranch conditionIh thenIh elseIh =>
    simp [conditionIh, thenIh, elseIh]
  | join passes left operator right leftIh rightIh => simp [leftIh, rightIh]
  | apply function argument functionIh argumentIh => simp [functionIh, argumentIh]
  | number token => rfl
  | name token => rfl
  | paren opening inside closing insideIh => exact insideIh
  | lambda keyword parameter arrow body bodyIh => simp [bodyIh]

theorem outline_bracketed :
    phrase.bracketed.outline = phrase.tokens.map fun token => token.kind.mark := by
  induction phrase with
  | inner passes phrase ih => exact ih
  | letIn keyword bound equals value inWord body valueIh bodyIh =>
    simp [valueIh, bodyIh, keyword.2, bound.2, equals.2.1, inWord.2, Kind.mark]
  | ifThen keyword condition thenWord thenBranch elseWord elseBranch conditionIh thenIh elseIh =>
    simp [conditionIh, thenIh, elseIh, keyword.2, thenWord.2, elseWord.2, Kind.mark]
  | join passes left operator right leftIh rightIh =>
    simp [leftIh, rightIh, operator.2.1, Kind.mark]
  | apply function argument functionIh argumentIh => simp [functionIh, argumentIh]
  | number token => simp [Bracketed.outline, token.2]
  | name token => simp [Bracketed.outline, token.2]
  | paren opening inside closing insideIh =>
    simp [insideIh, opening.2, closing.2, Kind.mark]
  | lambda keyword parameter arrow body bodyIh =>
    simp [bodyIh, keyword.2, parameter.2, arrow.2, Kind.mark]

theorem levels_bracketed :
    phrase.levels = phrase.bracketed.levels + if rule = .expression then 1 else 0 := by
  induction phrase with
  | @inner rule below passes phrase ih =>
    have notWhole : below ≠ .expression := by
      rintro rfl
      cases rule <;> simp [Rule.below] at passes
    rw [if_neg notWhole] at ih
    cases rule <;> simpa using ih
  | letIn keyword bound equals value inWord body valueIh bodyIh =>
    simpa [Bracketed.levels] using congrArg₂ max valueIh bodyIh
  | ifThen keyword condition thenWord thenBranch elseWord elseBranch conditionIh thenIh elseIh =>
    simpa [Bracketed.levels] using congrArg₂ max conditionIh (congrArg₂ max thenIh elseIh)
  | @join rule below passes left operator right leftIh rightIh =>
    have repeats := operator.2.2
    have operands : rule ≠ .expression ∧ below ≠ .expression := by
      cases rule <;> simp only [Rule.below, Option.some.injEq, reduceCtorEq] at passes <;>
        subst passes <;> simp [Rule.operators] at repeats ⊢
    rw [if_neg operands.1] at leftIh ⊢
    rw [if_neg operands.2] at rightIh
    simpa [Bracketed.levels] using congrArg₂ max leftIh rightIh
  | apply function argument functionIh argumentIh =>
    simpa [Bracketed.levels] using congrArg₂ max functionIh argumentIh
  | number token => rfl
  | name token => rfl
  | paren opening inside closing insideIh => simpa [Bracketed.levels] using insideIh
  | lambda keyword parameter arrow body bodyIh => simpa [Bracketed.levels] using bodyIh

/-- A greedy phrase can stand at a place of its rule, which has an end if the tokens that follow do
not go on with an expression. -/
theorem stands_bracketed {phrase : Phrase rule} {rest : List Token}
    (greedy : phrase.GreedyBefore rest) :
    phrase.bracketed.Stands ⟨rule.level, Ends .expression rest⟩ := by
  induction phrase generalizing rest with
  | inner passes phrase ih =>
    exact (ih greedy).mono (Rule.level_le_of_below passes) id
  | letIn keyword bound equals value inWord body valueIh bodyIh =>
    exact ⟨Nat.le_refl _, (valueIh greedy.1).mono (Nat.le_refl _) fun _ => trivial,
      bodyIh greedy.2⟩
  | ifThen keyword condition thenWord thenBranch elseWord elseBranch conditionIh thenIh elseIh =>
    exact ⟨Nat.le_refl _, (conditionIh greedy.1).mono (Nat.le_refl _) fun _ => trivial,
      (thenIh greedy.2.1).mono (Nat.le_refl _) fun _ => trivial, elseIh greedy.2.2⟩
  | @join rule below passes left operator right leftIh rightIh =>
    have level := Rule.level_of_operator rule _ operator.2.2
    have known : operator.1.text ∈ Operator.known :=
      Outlook.operators_subset_reach rule _ operator.2.2
    have goesOn : ¬ Ends .expression (operator.1 :: (right.tokens ++ rest)) := by
      have reached : operator.1.text ∈ Rule.expression.reach := known
      simp [Ends, Rule.continues, startsOperator, operator.2.1, reached]
    refine ⟨known, level.ge, ?_, ?_⟩
    · rw [level]
      exact (leftIh greedy.1).mono (Nat.le_refl _) goesOn
    · rw [level, ← Rule.level_below_of_operator passes operator.2.2]
      exact rightIh greedy.2
  | apply function argument functionIh argumentIh =>
    have goesOn : ¬ Ends .expression (argument.tokens ++ rest) := by
      have starts := argument.startsAtom_tokens rfl rest
      cases front : argument.tokens ++ rest with
      | nil => simp [front, startsAtom] at starts
      | cons token more =>
        have first : startsAtom [token] = true := by rwa [front] at starts
        simp [Ends, Rule.continues, first]
    exact ⟨Nat.le_refl _, (functionIh greedy.1).mono (Nat.le_refl _) goesOn, argumentIh greedy.2⟩
  | number token => exact Nat.le_refl _
  | name token => exact Nat.le_refl _
  | paren opening inside closing insideIh =>
    exact ⟨Nat.le_refl _, (insideIh greedy).mono (Nat.le_refl _) fun _ => trivial⟩
  | lambda keyword parameter arrow body bodyIh =>
    exact ⟨Nat.le_refl _, greedy.1, bodyIh greedy.2⟩

end Phrase

end Grammar

/-! ## The phrase of a bracketed tree -/

namespace Bracketed

structure IsPhrase {rule : Rule} (bracketed : Bracketed) (slot : Slot) (phrase : Phrase rule) :
    Prop where
  tokens : phrase.tokens = bracketed.tokens
  tree : phrase.tree = bracketed.tree
  levels : phrase.levels = bracketed.levels
  greedy : ∀ rest, (slot.ends → Ends .expression rest) → phrase.GreedyBefore rest

def HasPhrase (bracketed : Bracketed) (slot : Slot) (rule : Rule) : Prop :=
  ∃ phrase : Phrase rule, bracketed.IsPhrase slot phrase

variable {bracketed : Bracketed} {slot : Slot}

theorem HasPhrase.inner {rule below : Rule} (passes : rule.below = some below)
    (other : rule ≠ .expression) (has : bracketed.HasPhrase slot below) :
    bracketed.HasPhrase slot rule := by
  obtain ⟨phrase, is⟩ := has
  refine ⟨.inner passes phrase, is.tokens, is.tree, ?_, is.greedy⟩
  cases rule <;> first | exact absurd rfl other | exact is.levels

theorem HasPhrase.lower {level required : Nat} (fits : required ≤ level)
    (has : bracketed.HasPhrase slot (Level.rule level)) :
    bracketed.HasPhrase slot (Level.rule required) :=
  Level.lower_rule (fun passes other => HasPhrase.inner passes other) fits has

theorem HasPhrase.exists_expression {ends : Prop}
    (has : bracketed.HasPhrase ⟨Level.expression, ends⟩ (Level.rule Level.expression)) :
    ∃ phrase : Phrase .expression, phrase.tokens = bracketed.tokens ∧
      phrase.tree = bracketed.tree ∧ phrase.levels = bracketed.levels + 1 ∧
      ∀ rest, (ends → Ends .expression rest) → phrase.GreedyBefore rest := by
  obtain ⟨phrase, is⟩ := has
  exact ⟨.inner rfl phrase, is.tokens, is.tree, congrArg (· + 1) is.levels, is.greedy⟩

theorem exists_level_of_known {operator : String} (known : operator ∈ Operator.known) :
    Operator.level? operator = some (Operator.level operator) := by
  obtain ⟨level, found⟩ := Operator.exists_level_iff.mpr known
  simp [Operator.level, found]

/-! One lemma for each form, with the phrases of its parts. -/

theorem hasPhrase_number {value : Binary64} (writable : value.Writable)
    (unsigned : value.unsigned = value) : (number value).HasPhrase slot .atom := by
  obtain ⟨literal, written⟩ := Binary64.exists_literal_iff.mpr writable
  obtain ⟨_, _, _, _, _, _, read⟩ := Binary64.literal?_spells written
  have isNumber : (word .number (value.literal?.getD "")).kind = .number := rfl
  refine ⟨.number ⟨_, isNumber⟩, rfl, ?_, rfl, fun _ _ => trivial⟩
  simp [Token.value, word, written, read, unsigned]

theorem hasPhrase_name (text : String) : (name text).HasPhrase slot .atom :=
  ⟨.name ⟨word .name text, rfl⟩, rfl, rfl, rfl, fun _ _ => trivial⟩

theorem hasPhrase_binary {operator : String} {left right : Bracketed}
    (known : operator ∈ Operator.known)
    (leftHas : left.HasPhrase ⟨Operator.level operator, False⟩
      (Level.rule (Operator.level operator)))
    (rightHas : right.HasPhrase ⟨Operator.level operator + 1, slot.ends⟩
      (Level.rule (Operator.level operator + 1))) :
    (binary operator left right).HasPhrase slot (Level.rule (Operator.level operator)) := by
  obtain ⟨leftPhrase, leftIs⟩ := leftHas
  obtain ⟨rightPhrase, rightIs⟩ := rightHas
  obtain ⟨passes, repeats, _, _⟩ := rule_of_level (exists_level_of_known known)
  refine ⟨.join passes leftPhrase ⟨word .operator operator, rfl, repeats⟩ rightPhrase,
    ?_, ?_, ?_, fun rest ends => ⟨leftIs.greedy _ False.elim, rightIs.greedy rest ends⟩⟩
  · simp [leftIs.tokens, rightIs.tokens]
  · simp [leftIs.tree, rightIs.tree, word]
  · simp [leftIs.levels, rightIs.levels, levels]

theorem hasPhrase_lambda {parameter : String} {body : Bracketed} (here : slot.ends)
    (bodyHas : body.HasPhrase ⟨Level.expression, slot.ends⟩ (Level.rule Level.expression)) :
    (lambda parameter body).HasPhrase slot .atom := by
  obtain ⟨phrase, sameTokens, sameTree, sameLevels, greedy⟩ := bodyHas.exists_expression
  have form : (lambda parameter body).HasPhrase slot .lambdaForm := by
    refine ⟨.lambda ⟨word .lambda "fun", rfl⟩ ⟨word .name parameter, rfl⟩
      ⟨word .arrow "->", rfl⟩ phrase, ?_, ?_, ?_, fun rest ends => ⟨ends here, greedy rest ends⟩⟩
    · simp [sameTokens]
    · simp [sameTree, word]
    · simp [sameLevels, levels]
  exact form.inner rfl (by simp)

theorem hasPhrase_apply {function argument : Bracketed}
    (functionHas : function.HasPhrase ⟨Level.application, False⟩ .application)
    (argumentHas : argument.HasPhrase ⟨Level.atom, slot.ends⟩ .atom) :
    (apply function argument).HasPhrase slot .application := by
  obtain ⟨functionPhrase, functionIs⟩ := functionHas
  obtain ⟨argumentPhrase, argumentIs⟩ := argumentHas
  refine ⟨.apply functionPhrase argumentPhrase, ?_, ?_, ?_, fun rest ends =>
    ⟨functionIs.greedy _ False.elim, argumentIs.greedy rest ends⟩⟩
  · exact congrArg₂ List.append functionIs.tokens argumentIs.tokens
  · exact congrArg₂ Expr.apply functionIs.tree argumentIs.tree
  · exact congrArg₂ max functionIs.levels argumentIs.levels

theorem hasPhrase_letIn {bound : String} {value body : Bracketed}
    (valueHas : value.HasPhrase .closed (Level.rule Level.expression))
    (bodyHas : body.HasPhrase ⟨Level.expression, slot.ends⟩ (Level.rule Level.expression)) :
    (letIn bound value body).HasPhrase slot .letForm := by
  obtain ⟨valuePhrase, valueTokens, valueTree, valueLevels, valueGreedy⟩ :=
    valueHas.exists_expression
  obtain ⟨bodyPhrase, bodyTokens, bodyTree, bodyLevels, bodyGreedy⟩ := bodyHas.exists_expression
  let equals : Sign ["="] := ⟨word .operator "=", rfl, by simp [word]⟩
  let inWord : Terminal .inWord := ⟨word .inWord "in", rfl⟩
  refine ⟨.letIn ⟨word .letWord "let", rfl⟩ ⟨word .name bound, rfl⟩ equals valuePhrase inWord
    bodyPhrase, ?_, ?_, ?_, fun rest ends =>
      ⟨valueGreedy _ fun _ => ends_terminal inWord (by simp) _, bodyGreedy rest ends⟩⟩
  · simp [valueTokens, bodyTokens, equals, inWord]
  · simp [valueTree, bodyTree, word]
  · simp [valueLevels, bodyLevels, levels]

theorem hasPhrase_ifThen {condition thenBranch elseBranch : Bracketed}
    (conditionHas : condition.HasPhrase .closed (Level.rule Level.expression))
    (thenHas : thenBranch.HasPhrase .closed (Level.rule Level.expression))
    (elseHas : elseBranch.HasPhrase ⟨Level.expression, slot.ends⟩
      (Level.rule Level.expression)) :
    (ifThen condition thenBranch elseBranch).HasPhrase slot .letForm := by
  obtain ⟨conditionPhrase, conditionTokens, conditionTree, conditionLevels, conditionGreedy⟩ :=
    conditionHas.exists_expression
  obtain ⟨thenPhrase, thenTokens, thenTree, thenLevels, thenGreedy⟩ := thenHas.exists_expression
  obtain ⟨elsePhrase, elseTokens, elseTree, elseLevels, elseGreedy⟩ := elseHas.exists_expression
  let thenWord : Terminal .thenWord := ⟨word .thenWord "then", rfl⟩
  let elseWord : Terminal .elseWord := ⟨word .elseWord "else", rfl⟩
  have form : (ifThen condition thenBranch elseBranch).HasPhrase slot .ifForm := by
    refine ⟨.ifThen ⟨word .ifWord "if", rfl⟩ conditionPhrase thenWord thenPhrase elseWord
      elsePhrase, ?_, ?_, ?_, fun rest ends =>
        ⟨conditionGreedy _ fun _ => ends_terminal thenWord (by simp) _,
          thenGreedy _ fun _ => ends_terminal elseWord (by simp) _, elseGreedy rest ends⟩⟩
    · simp [conditionTokens, thenTokens, elseTokens, thenWord, elseWord]
    · simp [conditionTree, thenTree, elseTree]
    · simp [conditionLevels, thenLevels, elseLevels, levels]
  exact form.inner rfl (by simp)

theorem hasPhrase_paren {inside : Bracketed}
    (insideHas : inside.HasPhrase .closed (Level.rule Level.expression)) :
    (paren inside).HasPhrase slot .atom := by
  obtain ⟨phrase, sameTokens, sameTree, sameLevels, greedy⟩ := insideHas.exists_expression
  let closing : Terminal .rightParen := ⟨word .rightParen ")", rfl⟩
  refine ⟨.paren ⟨word .leftParen "(", rfl⟩ phrase closing, ?_, sameTree, sameLevels,
    fun rest _ => greedy _ fun _ => ends_terminal closing (by simp) rest⟩
  simp [sameTokens, closing]

/-- What can stand at a place has a phrase of the rule that is read there. -/
theorem hasPhrase_of_stands (writable : bracketed.tree.Writable)
    (unsigned : bracketed.tree.unsigned = bracketed.tree) (stands : bracketed.Stands slot) :
    bracketed.HasPhrase slot (Level.rule slot.required) := by
  induction bracketed generalizing slot with
  | number value =>
    exact HasPhrase.lower stands (hasPhrase_number writable (Expr.number.inj unsigned))
  | name text => exact HasPhrase.lower stands (hasPhrase_name text)
  | binary operator left right leftIh rightIh =>
    obtain ⟨_, leftWritable, rightWritable⟩ := writable
    obtain ⟨_, leftUnsigned, rightUnsigned⟩ := Expr.binary.inj unsigned
    obtain ⟨known, level, leftStands, rightStands⟩ := stands
    exact (hasPhrase_binary known (leftIh leftWritable leftUnsigned leftStands)
      (rightIh rightWritable rightUnsigned rightStands)).lower level
  | lambda parameter body bodyIh =>
    obtain ⟨_, bodyUnsigned⟩ := Expr.lambda.inj unsigned
    obtain ⟨level, here, bodyStands⟩ := stands
    exact HasPhrase.lower level
      (hasPhrase_lambda here (bodyIh writable.2 bodyUnsigned bodyStands))
  | apply function argument functionIh argumentIh =>
    obtain ⟨functionUnsigned, argumentUnsigned⟩ := Expr.apply.inj unsigned
    obtain ⟨level, functionStands, argumentStands⟩ := stands
    exact HasPhrase.lower level
      (hasPhrase_apply (functionIh writable.1 functionUnsigned functionStands)
        (argumentIh writable.2 argumentUnsigned argumentStands))
  | letIn bound value body valueIh bodyIh =>
    obtain ⟨_, valueWritable, bodyWritable⟩ := writable
    obtain ⟨_, valueUnsigned, bodyUnsigned⟩ := Expr.letIn.inj unsigned
    obtain ⟨level, valueStands, bodyStands⟩ := stands
    exact HasPhrase.lower level
      (hasPhrase_letIn (valueIh valueWritable valueUnsigned valueStands)
        (bodyIh bodyWritable bodyUnsigned bodyStands))
  | ifThen condition thenBranch elseBranch conditionIh thenIh elseIh =>
    obtain ⟨conditionWritable, thenWritable, elseWritable⟩ := writable
    obtain ⟨conditionUnsigned, thenUnsigned, elseUnsigned⟩ := Expr.ifThen.inj unsigned
    obtain ⟨level, conditionStands, thenStands, elseStands⟩ := stands
    exact HasPhrase.lower level
      (hasPhrase_ifThen (conditionIh conditionWritable conditionUnsigned conditionStands)
        (thenIh thenWritable thenUnsigned thenStands)
        (elseIh elseWritable elseUnsigned elseStands))
  | paren inside insideIh =>
    obtain ⟨level, insideStands⟩ := stands
    exact HasPhrase.lower level (hasPhrase_paren (insideIh writable unsigned insideStands))

theorem finite_tokens (writable : bracketed.tree.Writable) :
    ∀ token ∈ bracketed.tokens, token.HasFiniteValue := by
  have noNumber (kind : Kind) (text : String) (other : kind ≠ .number) :
      (word kind text).HasFiniteValue := fun number => absurd number other
  induction bracketed with
  | number value =>
    obtain ⟨literal, written⟩ := Binary64.exists_literal_iff.mpr writable
    obtain ⟨_, _, _, _, _, _, read⟩ := Binary64.literal?_spells written
    have finite : value.unsigned.isInfinite = false := by
      cases value <;> first | rfl | exact writable.elim
    rw [tokens, written, List.forall_mem_singleton]
    exact fun _ => ⟨value.unsigned, read, finite⟩
  | name text => exact List.forall_mem_singleton.mpr (noNumber _ _ (by simp))
  | binary operator left right leftIh rightIh =>
    simp only [tokens, List.forall_mem_append, List.forall_mem_cons]
    exact ⟨leftIh writable.2.1, noNumber _ _ (by simp), rightIh writable.2.2⟩
  | lambda parameter body bodyIh =>
    simp only [tokens, List.forall_mem_cons]
    exact ⟨noNumber _ _ (by simp), noNumber _ _ (by simp), noNumber _ _ (by simp),
      bodyIh writable.2⟩
  | apply function argument functionIh argumentIh =>
    exact List.forall_mem_append.mpr ⟨functionIh writable.1, argumentIh writable.2⟩
  | letIn bound value body valueIh bodyIh =>
    simp only [tokens, List.forall_mem_append, List.forall_mem_cons]
    exact ⟨noNumber _ _ (by simp), noNumber _ _ (by simp), noNumber _ _ (by simp),
      valueIh writable.2.1, noNumber _ _ (by simp), bodyIh writable.2.2⟩
  | ifThen condition thenBranch elseBranch conditionIh thenIh elseIh =>
    simp only [tokens, List.forall_mem_append, List.forall_mem_cons]
    exact ⟨noNumber _ _ (by simp), conditionIh writable.1, noNumber _ _ (by simp),
      thenIh writable.2.1, noNumber _ _ (by simp), elseIh writable.2.2⟩
  | paren inside insideIh =>
    simp only [tokens, List.forall_mem_append, List.forall_mem_cons]
    exact ⟨noNumber _ _ (by simp), insideIh writable, noNumber _ _ (by simp), by simp⟩

/-- The phrase that is read has the parentheses of the bracketed tree and no others. -/
theorem stands_of_ofTokens {words : List Token} (same : words.map Token.unplaced = bracketed.tokens)
    (read : Program.ofTokens true words = .ok bracketed.tree) :
    bracketed.Stands .closed ∧ bracketed.levels < maxNesting ∧
      bracketed.tree.height ≤ Expr.maxHeight := by
  rcases Program.ofTokens_cases true words with
    ⟨other, rest, parsed, sameOutcome⟩ | ⟨fault, _, _, failed⟩
  · obtain rfl := Except.ok.inj (sameOutcome.symm.trans read)
    obtain ⟨phrase, rfl, greedy, _, all, ⟨nested, short, _⟩, sameTree⟩ :=
      exists_fits_of_program parsed
    obtain rfl := all rfl
    have looks : phrase.bracketed.outline = bracketed.outline := by
      rw [phrase.outline_bracketed, outline, ← same]
      simp [Token.unplaced]
    have is := eq_of_outline looks (phrase.tree_bracketed.trans sameTree)
    have stands := Phrase.stands_bracketed greedy
    have levels := phrase.levels_bracketed
    rw [is] at stands levels
    rw [sameTree] at short
    rw [if_pos rfl] at levels
    exact ⟨stands, by omega, short⟩
  · rw [failed] at read
    cases read

theorem ofTokens_of_stands (writable : bracketed.tree.Writable)
    (unsigned : bracketed.tree.unsigned = bracketed.tree) (stands : bracketed.Stands .closed)
    (nested : bracketed.levels < maxNesting) (short : bracketed.tree.height ≤ Expr.maxHeight) :
    Program.ofTokens true bracketed.tokens = .ok bracketed.tree := by
  obtain ⟨phrase, sameTokens, sameTree, sameLevels, greedy⟩ :=
    (hasPhrase_of_stands writable unsigned stands).exists_expression
  have fits : phrase.Fits maxNesting := by
    refine ⟨by omega, by rw [sameTree]; exact short, ?_⟩
    rw [sameTokens]
    exact finite_tokens writable
  have outcome : Program.ofTokens true phrase.tokens = .ok phrase.tree :=
    Program.ofTokens_of_fits (greedy [] fun _ => trivial) fits
  rwa [sameTokens, sameTree] at outcome

/-- A bracketed tree is read as its tree if and only if it can stand alone and keeps within the
limits. -/
theorem ofText_eq_ok_iff (writable : bracketed.tree.Writable)
    (unsigned : bracketed.tree.unsigned = bracketed.tree) :
    Program.ofText true (String.ofList bracketed.text) = .ok bracketed.tree ↔
      bracketed.Stands .closed ∧ bracketed.levels < maxNesting ∧
        bracketed.tree.height ≤ Expr.maxHeight := by
  obtain ⟨words, reads, same⟩ := exists_reads writable .start
  rw [← String.toList_ofList (l := bracketed.text)] at reads
  have lexed := reads.tokenize_eq
  constructor
  · intro read
    obtain ⟨tokens, lexed', outcome⟩ := Program.exists_tokens_of_ofText read
    obtain rfl := Except.ok.inj (lexed.symm.trans lexed')
    exact stands_of_ofTokens same outcome
  · rintro ⟨stands, nested, short⟩
    have outcome := ofTokens_of_stands writable unsigned stands nested short
    rw [← same, Program.ofTokens_unplaced] at outcome
    refine Program.ofText_of_ok lexed ?_
    cases read : Program.ofTokens true words with
    | ok other =>
      rw [read] at outcome
      exact outcome
    | error error =>
      rw [read] at outcome
      cases outcome

structure Fits (bracketed : Bracketed) : Prop where
  writable : bracketed.tree.Writable
  unsigned : bracketed.tree.unsigned = bracketed.tree
  nested : bracketed.levels < maxNesting
  short : bracketed.tree.height ≤ Expr.maxHeight

theorem fits_of_ofText (read : Program.ofText true (String.ofList bracketed.text) =
    .ok bracketed.tree) : bracketed.Fits ∧ bracketed.Stands .closed := by
  obtain ⟨writable, unsigned, short⟩ := Program.writable_of_ofText read
  obtain ⟨stands, nested, _⟩ := (ofText_eq_ok_iff writable unsigned).mp read
  exact ⟨⟨writable, unsigned, nested, short⟩, stands⟩

theorem Fits.ofText_eq_ok_iff (fits : bracketed.Fits) :
    Program.ofText true (String.ofList bracketed.text) = .ok bracketed.tree ↔
      bracketed.Stands .closed := by
  rw [Bracketed.ofText_eq_ok_iff fits.writable fits.unsigned]
  exact and_iff_left ⟨fits.nested, fits.short⟩

end Bracketed

end Funlet
