import Funlet.Proofs.Grammar.Phrase
import Funlet.Proofs.Token.Words

/-!
# What may come next

An outlook says what a list of tokens read so far allows to come next: what the next token must be,
and which constructs are still open around it.  One token changes it in at most one way, so reading
from outlook to outlook is a deterministic automaton with a stack.  Bodies and last branches leave
nothing on the stack, because they end wherever the construct around them ends.

Every phrase leads from the outlook at its front to the one after it, and from every outlook there
is a way to the end.
-/

set_option autoImplicit false

namespace Funlet.Grammar

inductive Demand where
  | expression
  | operand
  | bound
  | equals
  | parameter
  | arrow
  /-- An expression may end here, or go on. -/
  | more
  deriving DecidableEq

inductive Bracket where
  | paren
  | value
  | condition
  | thenBranch
  deriving DecidableEq

def Bracket.closer : Bracket → Kind
  | .paren => .rightParen
  | .value => .inWord
  | .condition => .thenWord
  | .thenBranch => .elseWord

/-- What may come next, the innermost open construct first. -/
structure Outlook where
  demand : Demand
  opened : List Bracket
  deriving DecidableEq

def Rule.demand : Rule → Demand
  | .expression => .expression
  | .letForm => .expression
  | .ifForm => .expression
  | _ => .operand

namespace Outlook

def start : Outlook := ⟨.expression, []⟩

def finish : Outlook := ⟨.more, []⟩

def intoAtom (opened : List Bracket) (token : Token) : Option Outlook :=
  match token.kind with
  | .number => some ⟨.more, opened⟩
  | .name => some ⟨.more, opened⟩
  | .leftParen => some ⟨.expression, .paren :: opened⟩
  | .lambda => some ⟨.parameter, opened⟩
  | _ => none

def closed (outer : List Bracket) : Bracket → Outlook
  | .paren => ⟨.more, outer⟩
  | .value => ⟨.expression, outer⟩
  | .condition => ⟨.expression, .thenBranch :: outer⟩
  | .thenBranch => ⟨.expression, outer⟩

def close : List Bracket → Token → Option Outlook
  | [], _ => none
  | bracket :: outer, token =>
    if token.kind = bracket.closer then some (closed outer bracket) else none

def step : Outlook → Token → Option Outlook
  | ⟨.expression, opened⟩, token =>
    if token.kind = .letWord then some ⟨.bound, opened⟩
    else if token.kind = .ifWord then some ⟨.expression, .condition :: opened⟩
    else intoAtom opened token
  | ⟨.operand, opened⟩, token => intoAtom opened token
  | ⟨.bound, opened⟩, token => if token.kind = .name then some ⟨.equals, opened⟩ else none
  | ⟨.equals, opened⟩, token =>
    if token.kind = .operator ∧ token.text = "=" then some ⟨.expression, .value :: opened⟩ else none
  | ⟨.parameter, opened⟩, token => if token.kind = .name then some ⟨.arrow, opened⟩ else none
  | ⟨.arrow, opened⟩, token => if token.kind = .arrow then some ⟨.expression, opened⟩ else none
  | ⟨.more, opened⟩, token =>
    if startsAtom [token] then intoAtom opened token
    else if startsOperator Rule.expression.reach [token] then some ⟨.operand, opened⟩
    else close opened token

def run (outlook : Outlook) : List Token → Option Outlook
  | [] => some outlook
  | token :: rest =>
    match outlook.step token with
    | some next => next.run rest
    | none => none

@[simp]
theorem run_nil (outlook : Outlook) : outlook.run [] = some outlook := rfl

theorem run_cons (outlook : Outlook) (token : Token) (rest : List Token) :
    outlook.run (token :: rest) = (outlook.step token).bind fun next => next.run rest := by
  cases taken : outlook.step token <;> simp [run, taken]

theorem run_append (outlook : Outlook) (first second : List Token) :
    outlook.run (first ++ second) = (outlook.run first).bind fun next => next.run second := by
  induction first generalizing outlook with
  | nil => rfl
  | cons token rest ih =>
    cases taken : outlook.step token with
    | none => simp [run, taken]
    | some next => simp [run, taken, ih]

theorem run_of_step {outlook next : Outlook} {token : Token}
    (taken : outlook.step token = some next) (rest : List Token) :
    outlook.run (token :: rest) = next.run rest := by
  simp [run, taken]

theorem run_append_of_run {outlook next : Outlook} {first : List Token}
    (taken : outlook.run first = some next) (second : List Token) :
    outlook.run (first ++ second) = next.run second := by
  simp [run_append, taken]

/-! ## Phrases -/

theorem step_expression_of_operand {opened : List Bracket} {token : Token} {next : Outlook}
    (taken : step ⟨.operand, opened⟩ token = some next) :
    step ⟨.expression, opened⟩ token = some next := by
  simp only [step] at taken ⊢
  have notLet : token.kind ≠ .letWord := by
    intro kind
    simp [intoAtom, kind] at taken
  have notIf : token.kind ≠ .ifWord := by
    intro kind
    simp [intoAtom, kind] at taken
  rw [if_neg notLet, if_neg notIf]
  exact taken

theorem step_more_of_operand {opened : List Bracket} {token : Token} {next : Outlook}
    (taken : step ⟨.operand, opened⟩ token = some next) :
    step ⟨.more, opened⟩ token = some next := by
  simp only [step] at taken ⊢
  have atom : startsAtom [token] = true := by
    unfold intoAtom at taken
    split at taken <;> simp_all [startsAtom]
  rw [if_pos atom]
  exact taken

theorem run_congr_head {first second : Outlook} {tokens : List Token} {next : Outlook}
    (filled : first ≠ next)
    (steps : ∀ token after, first.step token = some after → second.step token = some after)
    (taken : first.run tokens = some next) : second.run tokens = some next := by
  cases tokens with
  | nil =>
    simp only [run_nil, Option.some.injEq] at taken
    exact absurd taken filled
  | cons token rest =>
    rw [run_cons] at taken
    obtain ⟨after, head, tail⟩ := Option.bind_eq_some_iff.mp taken
    rw [run_of_step (steps token after head)]
    exact tail

theorem step_operator {texts : List String} (operator : Sign texts) (opened : List Bracket)
    (known : ∀ text ∈ texts, text ∈ Rule.expression.reach) :
    step ⟨.more, opened⟩ operator.1 = some ⟨.operand, opened⟩ := by
  obtain ⟨token, kind, text⟩ := operator
  have reached : token.text ∈ Rule.expression.reach := known _ text
  simp [step, startsAtom, startsOperator, kind, reached]

theorem operators_subset_reach (rule : Rule) :
    ∀ text ∈ rule.operators, text ∈ Rule.expression.reach := by
  cases rule <;> decide

theorem run_below {rule below : Rule} (passes : rule.below = some below) (opened : List Bracket)
    {tokens : List Token}
    (taken : run ⟨below.demand, opened⟩ tokens = some ⟨.more, opened⟩) :
    run ⟨rule.demand, opened⟩ tokens = some ⟨.more, opened⟩ := by
  have widen : run ⟨.operand, opened⟩ tokens = some ⟨.more, opened⟩ →
      run ⟨.expression, opened⟩ tokens = some ⟨.more, opened⟩ :=
    run_congr_head (by simp) (fun _ _ => step_expression_of_operand)
  cases rule <;> simp only [Rule.below, Option.some.injEq, reduceCtorEq] at passes <;>
    subst passes <;> first | exact taken | exact widen taken

theorem step_closer (bracket : Bracket) {token : Token} (kind : token.kind = bracket.closer)
    (outer : List Bracket) :
    step ⟨.more, bracket :: outer⟩ token = some (closed outer bracket) := by
  cases bracket <;> simp_all [step, startsAtom, startsOperator, close, Bracket.closer]

/-- A phrase leads from the front of its rule to where an expression may end. -/
theorem run_phrase {rule : Rule} (phrase : Phrase rule) (opened : List Bracket) :
    run ⟨rule.demand, opened⟩ phrase.tokens = some ⟨.more, opened⟩ := by
  induction phrase generalizing opened with
  | inner passes phrase ih => exact run_below passes opened (ih opened)
  | letIn keyword bound equals value inWord body valueIh bodyIh =>
    have sign : equals.1.kind = .operator ∧ equals.1.text = "=" := by
      simpa using equals.2
    have first : step ⟨.expression, opened⟩ keyword.1 = some ⟨.bound, opened⟩ := by
      simp [step, keyword.2]
    have second : step ⟨.bound, opened⟩ bound.1 = some ⟨.equals, opened⟩ := by
      simp [step, bound.2]
    have third : step ⟨.equals, opened⟩ equals.1 = some ⟨.expression, .value :: opened⟩ := by
      simp [step, sign]
    simp only [Phrase.tokens, Rule.demand] at valueIh bodyIh ⊢
    rw [run_of_step first, run_of_step second, run_of_step third,
      run_append_of_run (valueIh (.value :: opened)),
      run_of_step (step_closer .value inWord.2 opened)]
    exact bodyIh opened
  | ifThen keyword condition thenWord thenBranch elseWord elseBranch conditionIh thenIh elseIh =>
    have first : step ⟨.expression, opened⟩ keyword.1 =
        some ⟨.expression, .condition :: opened⟩ := by
      simp [step, keyword.2]
    simp only [Phrase.tokens, Rule.demand] at conditionIh thenIh elseIh ⊢
    rw [run_of_step first, run_append_of_run (conditionIh (.condition :: opened)),
      run_of_step (step_closer .condition thenWord.2 opened),
      closed, run_append_of_run (thenIh (.thenBranch :: opened)),
      run_of_step (step_closer .thenBranch elseWord.2 opened)]
    exact elseIh opened
  | @join rule below passes left operator right leftIh rightIh =>
    have sign : step ⟨.more, opened⟩ operator.1 = some ⟨.operand, opened⟩ :=
      step_operator operator opened (operators_subset_reach rule)
    have operand : below.demand = .operand := by
      have text := operator.2.2
      cases rule <;> simp [Rule.operators, Rule.below] at text passes <;> subst passes <;> rfl
    simp only [Phrase.tokens]
    rw [run_append_of_run (leftIh opened), run_of_step sign, ← operand]
    exact rightIh opened
  | apply function argument functionIh argumentIh =>
    simp only [Phrase.tokens]
    rw [run_append_of_run (functionIh opened)]
    exact run_congr_head (by simp) (fun _ _ => step_more_of_operand)
      (argumentIh opened)
  | number token => simp [run, Rule.demand, step, intoAtom, token.2]
  | name token => simp [run, Rule.demand, step, intoAtom, token.2]
  | paren opening inside closing insideIh =>
    have first : step ⟨.operand, opened⟩ opening.1 = some ⟨.expression, .paren :: opened⟩ := by
      simp [step, intoAtom, opening.2]
    simp only [Phrase.tokens, Rule.demand] at insideIh ⊢
    rw [run_of_step first, run_append_of_run (insideIh (.paren :: opened)),
      run_of_step (step_closer .paren closing.2 opened)]
    rfl
  | lambda keyword parameter arrow body bodyIh =>
    have first : step ⟨.operand, opened⟩ keyword.1 = some ⟨.parameter, opened⟩ := by
      simp [step, intoAtom, keyword.2]
    have second : step ⟨.parameter, opened⟩ parameter.1 = some ⟨.arrow, opened⟩ := by
      simp [step, parameter.2]
    have third : step ⟨.arrow, opened⟩ arrow.1 = some ⟨.expression, opened⟩ := by
      simp [step, arrow.2]
    simp only [Phrase.tokens, Rule.demand]
    rw [run_of_step first, run_of_step second, run_of_step third]
    exact bodyIh opened

/-! ## Ways to the end -/

def sample (kind : Kind) (text : String) : Token := ⟨kind, text, .start⟩

def sampleCloser : Bracket → Token
  | .paren => sample .rightParen ")"
  | .value => sample .inWord "in"
  | .condition => sample .thenWord "then"
  | .thenBranch => sample .elseWord "else"

theorem isWord_sample_name : (sample .name "x").IsWord := ⟨['x'], by decide⟩

theorem isWord_sample_equals : (sample .operator "=").IsWord := ⟨['='], by decide⟩

theorem isWord_sample_arrow : (sample .arrow "->").IsWord := ⟨['-', '>'], by decide⟩

theorem isWord_sampleCloser (bracket : Bracket) : (sampleCloser bracket).IsWord := by
  refine ⟨(sampleCloser bracket).text.toList, ?_⟩
  cases bracket <;> decide

def Completes (outlook : Outlook) : Prop :=
  ∃ tokens : List Token, (∀ token ∈ tokens, token.IsWord) ∧ outlook.run tokens = some finish

theorem Completes.of_step {outlook next : Outlook} {token : Token} (word : token.IsWord)
    (taken : outlook.step token = some next) (completes : next.Completes) : outlook.Completes := by
  obtain ⟨tokens, words, ran⟩ := completes
  exact ⟨token :: tokens, List.forall_mem_cons.mpr ⟨word, words⟩,
    (run_of_step taken tokens).trans ran⟩

theorem Completes.of_name {opened : List Bracket} (completes : Completes ⟨.more, opened⟩) :
    Completes ⟨.expression, opened⟩ :=
  completes.of_step isWord_sample_name (by simp [step, intoAtom, sample])

theorem Completes.of_closer {bracket : Bracket} {outer : List Bracket}
    (completes : (closed outer bracket).Completes) : Completes ⟨.more, bracket :: outer⟩ :=
  completes.of_step (isWord_sampleCloser bracket)
    (step_closer bracket (by cases bracket <;> rfl) outer)

theorem completes_more (opened : List Bracket) : Completes ⟨.more, opened⟩ := by
  induction opened with
  | nil => exact ⟨[], by simp, rfl⟩
  | cons bracket outer ih =>
    apply Completes.of_closer
    cases bracket with
    | paren => exact ih
    | value => exact ih.of_name
    | condition => exact Completes.of_name (Completes.of_closer ih.of_name)
    | thenBranch => exact ih.of_name

/-- Every outlook can be completed to a program. -/
theorem completes (outlook : Outlook) : outlook.Completes := by
  obtain ⟨demand, opened⟩ := outlook
  have expression (opened : List Bracket) : Completes ⟨.expression, opened⟩ :=
    (completes_more opened).of_name
  have equals : Completes ⟨.equals, opened⟩ :=
    (expression (.value :: opened)).of_step isWord_sample_equals (by simp [step, sample])
  have arrow : Completes ⟨.arrow, opened⟩ :=
    (expression opened).of_step isWord_sample_arrow (by simp [step, sample])
  cases demand with
  | expression => exact expression opened
  | operand =>
    exact (completes_more opened).of_step isWord_sample_name (by simp [step, intoAtom, sample])
  | bound => exact equals.of_step isWord_sample_name (by simp [step, sample])
  | equals => exact equals
  | parameter => exact arrow.of_step isWord_sample_name (by simp [step, sample])
  | arrow => exact arrow
  | more => exact completes_more opened

end Outlook

theorem Phrase.tokens_ne_nil {rule : Rule} (phrase : Phrase rule) : phrase.tokens ≠ [] := by
  intro empty
  have ran := Outlook.run_phrase phrase []
  rw [empty] at ran
  cases rule <;> simp [Rule.demand] at ran

end Funlet.Grammar
