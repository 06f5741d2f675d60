import Funlet.Proofs.Grammar.Outlook

/-!
# Greedy phrases

Whatever an automaton of outlooks accepts has a phrase, and one in which the body of every function
goes on as long as it can.  An atom is built from its own tokens; an expression is an atom to which
operators with operands, and arguments, are added one by one at the right place of the phrase built
so far.
-/

set_option autoImplicit false

namespace Funlet.Grammar

/-! ## What follows a phrase -/

theorem ends_cons_congr {rule : Rule} {token : Token} {first second : List Token}
    (ends : Ends rule (token :: first)) : Ends rule (token :: second) := ends

theorem ends_append_congr {rule : Rule} {front first second : List Token}
    (same : Ends rule first → Ends rule second) (ends : Ends rule (front ++ first)) :
    Ends rule (front ++ second) := by
  cases front with
  | nil => exact same ends
  | cons token front => exact ends

/-- Of the tokens behind a greedy phrase it matters only whether they go on with an expression. -/
theorem Phrase.GreedyBefore.congr {rule : Rule} {phrase : Phrase rule} {first second : List Token}
    (same : Ends .expression first → Ends .expression second)
    (greedy : phrase.GreedyBefore first) : phrase.GreedyBefore second := by
  induction phrase generalizing first second with
  | inner passes phrase ih => exact ih same greedy
  | letIn keyword bound equals value inWord body valueIh bodyIh =>
    exact ⟨valueIh ends_cons_congr greedy.1, bodyIh same greedy.2⟩
  | ifThen keyword condition thenWord thenBranch elseWord elseBranch conditionIh thenIh elseIh =>
    exact ⟨conditionIh ends_cons_congr greedy.1, thenIh ends_cons_congr greedy.2.1,
      elseIh same greedy.2.2⟩
  | join passes left operator right leftIh rightIh =>
    exact ⟨leftIh ends_cons_congr greedy.1, rightIh same greedy.2⟩
  | apply function argument functionIh argumentIh =>
    exact ⟨functionIh (ends_append_congr same) greedy.1, argumentIh same greedy.2⟩
  | number token => trivial
  | name token => trivial
  | paren opening inside closing insideIh => exact insideIh ends_cons_congr greedy
  | lambda keyword parameter arrow body bodyIh =>
    exact ⟨same greedy.1, bodyIh same greedy.2⟩

/-! ## Adding at the end of a phrase -/

/-- Some tokens can be added at the end of every phrase of a rule, and the phrase stays greedy
where the addition is. -/
def Extensible (rule : Rule) (added : List Token) (greedy : List Token → Prop) : Prop :=
  ∀ phrase : Phrase rule, ∃ longer : Phrase rule, longer.tokens = phrase.tokens ++ added ∧
    ∀ rest, phrase.GreedyBefore (added ++ rest) → greedy rest → longer.GreedyBefore rest

theorem extensible_apply (argument : Phrase .atom) :
    Extensible .application argument.tokens argument.GreedyBefore := by
  intro function
  exact ⟨.apply function argument, rfl, fun _ left right => ⟨left, right⟩⟩

theorem extensible_join (rule : Rule) {below : Rule} (passes : rule.below = some below)
    (operator : Sign rule.operators) (operand : Phrase below) :
    Extensible rule (operator.1 :: operand.tokens) operand.GreedyBefore := by
  intro left
  exact ⟨.join passes left operator operand, rfl, fun _ before after => ⟨before, after⟩⟩

/-- What can be added to the last operand can be added to the whole. -/
theorem extensible_of_below {rule below : Rule} (passes : rule.below = some below)
    (repeats : rule.operators ≠ []) {added : List Token} {greedy : List Token → Prop}
    (extensible : Extensible below added greedy) : Extensible rule added greedy := by
  intro phrase
  have single (inside : Phrase below) : ∃ longer : Phrase rule,
      longer.tokens = (Phrase.inner passes inside).tokens ++ added ∧ ∀ rest,
        (Phrase.inner passes inside).GreedyBefore (added ++ rest) → greedy rest →
          longer.GreedyBefore rest := by
    obtain ⟨longer, tokens, stays⟩ := extensible inside
    exact ⟨.inner passes longer, tokens, stays⟩
  have chained (left : Phrase rule) (operator : Sign rule.operators) (right : Phrase below) :
      ∃ longer : Phrase rule,
        longer.tokens = (Phrase.join passes left operator right).tokens ++ added ∧ ∀ rest,
          (Phrase.join passes left operator right).GreedyBefore (added ++ rest) → greedy rest →
            longer.GreedyBefore rest := by
    obtain ⟨longer, tokens, stays⟩ := extensible right
    refine ⟨.join passes left operator longer, by simp [tokens], ?_⟩
    intro rest before after
    refine ⟨?_, stays rest before.2 after⟩
    rw [tokens, List.append_assoc]
    exact before.1
  cases phrase with
  | inner passes' inside =>
    obtain rfl : _ = below := Option.some.inj (passes'.symm.trans passes)
    exact single inside
  | join passes' left operator right =>
    obtain rfl : _ = below := Option.some.inj (passes'.symm.trans passes)
    exact chained left operator right
  | _ => simp [Rule.operators] at repeats

theorem extensible_argument (argument : Phrase .atom) :
    Extensible .comparison argument.tokens argument.GreedyBefore :=
  extensible_of_below rfl (by decide) (extensible_of_below rfl (by decide)
    (extensible_of_below rfl (by decide) (extensible_apply argument)))

theorem extensible_operator {token : Token} (kind : token.kind = .operator)
    (known : token.text ∈ Rule.expression.reach) (operand : Phrase .atom) :
    Extensible .comparison (token :: operand.tokens) operand.GreedyBefore := by
  simp only [Rule.reach, List.mem_append] at known
  rcases known with compares | adds | multiplies
  · exact extensible_join .comparison rfl ⟨token, kind, compares⟩
      (.inner rfl (.inner rfl (.inner rfl operand)))
  · exact extensible_of_below rfl (by decide)
      (extensible_join .additive rfl ⟨token, kind, adds⟩
        (.inner rfl (.inner rfl operand)))
  · exact extensible_of_below rfl (by decide) (extensible_of_below rfl (by decide)
      (extensible_join .multiplicative rfl ⟨token, kind, multiplies⟩
        (.inner rfl operand)))

/-! ## Phrases of accepted tokens -/

def Outlook.Accepts (outlook : Outlook) (tokens : List Token) : Prop :=
  outlook.run tokens = some .finish

theorem Outlook.accepts_cons {outlook : Outlook} {token : Token} {rest : List Token} :
    outlook.Accepts (token :: rest) ↔
      ∃ next, outlook.step token = some next ∧ next.Accepts rest := by
  simp [Accepts, run_cons, Option.bind_eq_some_iff]

theorem Outlook.Accepts.exists_only {outlook next : Outlook} {tokens : List Token}
    {allowed : Token → Prop} [DecidablePred allowed] (accepts : outlook.Accepts tokens)
    (steps : ∀ token, outlook.step token = if allowed token then some next else none)
    (unfinished : outlook ≠ .finish) :
    ∃ token rest, tokens = token :: rest ∧ allowed token ∧ next.Accepts rest := by
  cases tokens with
  | nil => exact absurd (Option.some.inj accepts) unfinished
  | cons token rest =>
    obtain ⟨_, taken, accepts⟩ := accepts_cons.mp accepts
    rw [steps, Option.ite_none_right_eq_some, Option.some.injEq] at taken
    obtain ⟨isAllowed, rfl⟩ := taken
    exact ⟨token, rest, rfl, isAllowed, accepts⟩

/-- Where an expression has ended for good, an open construct is closed. -/
theorem Outlook.accepts_close {bracket : Bracket} {outer : List Bracket} {tokens : List Token}
    (ends : Ends .expression tokens) (accepts : Accepts ⟨.more, bracket :: outer⟩ tokens) :
    ∃ closer rest, tokens = closer :: rest ∧ closer.kind = bracket.closer ∧
      (closed outer bracket).Accepts rest := by
  cases tokens with
  | nil => simp [Accepts, finish] at accepts
  | cons token rest =>
    obtain ⟨next, taken, accepts⟩ := accepts_cons.mp accepts
    simp only [Ends, Rule.continues, Bool.or_eq_false_iff] at ends
    simp only [step, ends.1, ends.2, close, Bool.false_eq_true, ↓reduceIte] at taken
    split at taken
    · rename_i kind
      obtain rfl := Option.some.inj taken
      exact ⟨token, rest, rfl, kind, accepts⟩
    · simp at taken

theorem Outlook.accepts_end {tokens : List Token} (ends : Ends .expression tokens)
    (accepts : finish.Accepts tokens) : tokens = [] := by
  cases tokens with
  | nil => rfl
  | cons token rest =>
    obtain ⟨next, taken, accepts⟩ := accepts_cons.mp accepts
    simp only [Ends, Rule.continues, Bool.or_eq_false_iff] at ends
    simp [finish, step, ends.1, ends.2, close] at taken

/-- Accepted tokens that begin an atom split into a greedy atom and accepted tokens. -/
def SplitsAtom (tokens : List Token) : Prop :=
  ∀ opened, Outlook.Accepts ⟨.operand, opened⟩ tokens →
    ∃ (atom : Phrase .atom) (rest : List Token), tokens = atom.tokens ++ rest ∧
      atom.GreedyBefore rest ∧ Outlook.Accepts ⟨.more, opened⟩ rest

def SplitsMore (tokens : List Token) : Prop :=
  ∀ opened (begun : Phrase .comparison), begun.GreedyBefore tokens →
    Outlook.Accepts ⟨.more, opened⟩ tokens →
      ∃ (whole : Phrase .comparison) (rest : List Token),
        begun.tokens ++ tokens = whole.tokens ++ rest ∧ whole.GreedyBefore rest ∧
          Ends .expression rest ∧ Outlook.Accepts ⟨.more, opened⟩ rest

def SplitsExpression (tokens : List Token) : Prop :=
  ∀ opened, Outlook.Accepts ⟨.expression, opened⟩ tokens →
    ∃ (phrase : Phrase .expression) (rest : List Token), tokens = phrase.tokens ++ rest ∧
      phrase.GreedyBefore rest ∧ Ends .expression rest ∧ Outlook.Accepts ⟨.more, opened⟩ rest

section Forms

variable {rest : List Token} {opened : List Bracket}
  (shorter : ∀ other, other.length ≤ rest.length → SplitsExpression other)

include shorter

theorem splits_lambda (keyword : Terminal .lambda)
    (accepts : Outlook.Accepts ⟨.parameter, opened⟩ rest) :
    ∃ (phrase : Phrase .lambdaForm) (after : List Token),
      keyword.1 :: rest = phrase.tokens ++ after ∧ phrase.GreedyBefore after ∧
        Outlook.Accepts ⟨.more, opened⟩ after := by
  obtain ⟨parameter, rest, rfl, name, accepts⟩ :=
    accepts.exists_only (fun _ => rfl) (by simp [Outlook.finish])
  obtain ⟨arrow, rest, rfl, points, accepts⟩ :=
    accepts.exists_only (fun _ => rfl) (by simp [Outlook.finish])
  obtain ⟨body, after, rfl, greedy, ends, accepts⟩ :=
    shorter rest (by simp only [List.length_cons]; omega) opened accepts
  exact ⟨.lambda keyword ⟨parameter, name⟩ ⟨arrow, points⟩ body, after, rfl, ⟨ends, greedy⟩,
    accepts⟩

theorem splits_letIn (keyword : Terminal .letWord)
    (accepts : Outlook.Accepts ⟨.bound, opened⟩ rest) :
    ∃ (phrase : Phrase .letForm) (after : List Token),
      keyword.1 :: rest = phrase.tokens ++ after ∧ phrase.GreedyBefore after ∧
        Ends .expression after ∧ Outlook.Accepts ⟨.more, opened⟩ after := by
  obtain ⟨bound, rest, rfl, name, accepts⟩ :=
    accepts.exists_only (fun _ => rfl) (by simp [Outlook.finish])
  obtain ⟨equals, rest, rfl, sign, accepts⟩ :=
    accepts.exists_only (fun _ => rfl) (by simp [Outlook.finish])
  obtain ⟨value, after, rfl, valueGreedy, ends, accepts⟩ :=
    shorter rest (by simp only [List.length_cons]; omega) (.value :: opened) accepts
  obtain ⟨inWord, after, rfl, kind, accepts⟩ := Outlook.accepts_close ends accepts
  obtain ⟨body, after, rfl, bodyGreedy, ends, accepts⟩ :=
    shorter after (by simp only [List.length_cons, List.length_append]; omega) opened accepts
  exact ⟨.letIn keyword ⟨bound, name⟩ ⟨equals, sign.1, List.mem_singleton.mpr sign.2⟩ value
    ⟨inWord, kind⟩ body, after, by simp, ⟨valueGreedy, bodyGreedy⟩, ends, accepts⟩

theorem splits_ifThen (keyword : Terminal .ifWord)
    (accepts : Outlook.Accepts ⟨.expression, .condition :: opened⟩ rest) :
    ∃ (phrase : Phrase .ifForm) (after : List Token),
      keyword.1 :: rest = phrase.tokens ++ after ∧ phrase.GreedyBefore after ∧
        Ends .expression after ∧ Outlook.Accepts ⟨.more, opened⟩ after := by
  obtain ⟨condition, after, rfl, conditionGreedy, ends, accepts⟩ :=
    shorter rest (Nat.le_refl _) (.condition :: opened) accepts
  obtain ⟨thenWord, after, rfl, thenKind, accepts⟩ := Outlook.accepts_close ends accepts
  obtain ⟨thenBranch, after, rfl, thenGreedy, ends, accepts⟩ :=
    shorter after (by simp only [List.length_cons, List.length_append]; omega)
      (.thenBranch :: opened) accepts
  obtain ⟨elseWord, after, rfl, elseKind, accepts⟩ := Outlook.accepts_close ends accepts
  obtain ⟨elseBranch, after, rfl, elseGreedy, ends, accepts⟩ :=
    shorter after (by simp only [List.length_cons, List.length_append]; omega) opened accepts
  exact ⟨.ifThen keyword condition ⟨thenWord, thenKind⟩ thenBranch ⟨elseWord, elseKind⟩ elseBranch,
    after, by simp, ⟨conditionGreedy, thenGreedy, elseGreedy⟩, ends, accepts⟩

end Forms

theorem splitsAtom_of_shorter {tokens : List Token}
    (shorter : ∀ rest, rest.length < tokens.length → SplitsExpression rest) :
    SplitsAtom tokens := by
  intro opened accepts
  cases tokens with
  | nil => simp [Outlook.Accepts, Outlook.finish] at accepts
  | cons token rest =>
    obtain ⟨next, taken, accepts⟩ := Outlook.accepts_cons.mp accepts
    simp only [Outlook.step, Outlook.intoAtom] at taken
    split at taken
    · rename_i kind
      obtain rfl := Option.some.inj taken
      exact ⟨.number ⟨token, kind⟩, rest, rfl, trivial, accepts⟩
    · rename_i kind
      obtain rfl := Option.some.inj taken
      exact ⟨.name ⟨token, kind⟩, rest, rfl, trivial, accepts⟩
    · rename_i kind
      obtain rfl := Option.some.inj taken
      obtain ⟨inside, after, rfl, greedy, ends, accepts⟩ :=
        shorter rest (by simp) (.paren :: opened) accepts
      obtain ⟨closer, rest, rfl, closing, accepts⟩ := Outlook.accepts_close ends accepts
      exact ⟨.paren ⟨token, kind⟩ inside ⟨closer, closing⟩, rest, by simp, greedy, accepts⟩
    · rename_i kind
      obtain rfl := Option.some.inj taken
      obtain ⟨phrase, after, split, greedy, accepts⟩ :=
        splits_lambda (fun other fewer => shorter other (Nat.lt_succ_of_le fewer)) ⟨token, kind⟩
          accepts
      exact ⟨.inner rfl phrase, after, split, greedy, accepts⟩
    · simp at taken

theorem splitsMore_of_shorter {tokens : List Token}
    (atoms : ∀ rest, rest.length ≤ tokens.length → SplitsAtom rest)
    (shorter : ∀ rest, rest.length < tokens.length → SplitsMore rest) : SplitsMore tokens := by
  intro opened begun greedy accepts
  cases tokens with
  | nil => exact ⟨begun, [], rfl, greedy, trivial, accepts⟩
  | cons token rest =>
    -- Adds the tokens of one more operand or argument and goes on behind it.
    have goOn {added after : List Token} {stays : List Token → Prop}
        (extensible : Extensible .comparison added stays)
        (split : token :: rest = added ++ after) (filled : added ≠ []) (operand : stays after)
        (accepts : Outlook.Accepts ⟨.more, opened⟩ after) :
        ∃ (whole : Phrase .comparison) (after : List Token),
          begun.tokens ++ token :: rest = whole.tokens ++ after ∧ whole.GreedyBefore after ∧
            Ends .expression after ∧ Outlook.Accepts ⟨.more, opened⟩ after := by
      obtain ⟨longer, longerTokens, longerGreedy⟩ := extensible begun
      have fewer : after.length < (token :: rest).length := by
        have := List.length_pos_iff.mpr filled
        simp only [split, List.length_append]
        omega
      obtain ⟨whole, last, tokens, wholeGreedy, ends, accepts⟩ :=
        shorter after fewer opened longer (longerGreedy after (split ▸ greedy) operand) accepts
      refine ⟨whole, last, ?_, wholeGreedy, ends, accepts⟩
      rw [← tokens, longerTokens, List.append_assoc, split]
    by_cases atom : startsAtom [token] = true
    · have operand : Outlook.Accepts ⟨.operand, opened⟩ (token :: rest) := by
        obtain ⟨next, taken, accepts⟩ := Outlook.accepts_cons.mp accepts
        simp only [Outlook.step, atom, ↓reduceIte] at taken
        exact Outlook.accepts_cons.mpr ⟨next, taken, accepts⟩
      obtain ⟨argument, after, split, argumentGreedy, accepts⟩ :=
        atoms (token :: rest) (Nat.le_refl _) opened operand
      exact goOn (extensible_argument argument) split argument.tokens_ne_nil argumentGreedy accepts
    · by_cases operator : startsOperator Rule.expression.reach [token] = true
      · obtain ⟨next, taken, accepts⟩ := Outlook.accepts_cons.mp accepts
        simp only [Outlook.step, atom, operator, Bool.false_eq_true, ↓reduceIte,
          Option.some.injEq] at taken
        subst taken
        obtain ⟨operand, after, split, operandGreedy, accepts⟩ :=
          atoms rest (by simp) opened accepts
        simp only [startsOperator, Bool.and_eq_true, beq_iff_eq, List.contains_eq_mem,
          decide_eq_true_eq] at operator
        exact goOn (extensible_operator operator.1 operator.2 operand) (by rw [split]; rfl)
          (by simp) operandGreedy accepts
      · exact ⟨begun, token :: rest, rfl, greedy, by simp_all [Ends, Rule.continues], accepts⟩

theorem splitsExpression_of_shorter {tokens : List Token}
    (atoms : SplitsAtom tokens) (more : ∀ rest, rest.length < tokens.length → SplitsMore rest)
    (shorter : ∀ rest, rest.length < tokens.length → SplitsExpression rest) :
    SplitsExpression tokens := by
  intro opened accepts
  cases tokens with
  | nil => simp [Outlook.Accepts, Outlook.finish] at accepts
  | cons token rest =>
    obtain ⟨next, taken, following⟩ := Outlook.accepts_cons.mp accepts
    have within (other : List Token) (fewer : other.length ≤ rest.length) :
        SplitsExpression other := shorter other (Nat.lt_succ_of_le fewer)
    simp only [Outlook.step] at taken
    split at taken
    · rename_i letWord
      obtain rfl := Option.some.inj taken
      obtain ⟨phrase, after, split, greedy, ends, accepts⟩ :=
        splits_letIn within ⟨token, letWord⟩ following
      exact ⟨.inner rfl phrase, after, split, greedy, ends, accepts⟩
    · split at taken
      · rename_i ifWord
        obtain rfl := Option.some.inj taken
        obtain ⟨phrase, after, split, greedy, ends, accepts⟩ :=
          splits_ifThen within ⟨token, ifWord⟩ following
        exact ⟨.inner rfl (.inner rfl phrase), after, split, greedy, ends, accepts⟩
      · have operand : Outlook.Accepts ⟨.operand, opened⟩ (token :: rest) :=
          Outlook.accepts_cons.mpr ⟨next, taken, following⟩
        obtain ⟨atom, after, split, atomGreedy, accepts⟩ := atoms opened operand
        have fewer : after.length < (token :: rest).length := by
          have := List.length_pos_iff.mpr atom.tokens_ne_nil
          simp only [split, List.length_append]
          omega
        obtain ⟨whole, last, tokens, wholeGreedy, ends, accepts⟩ :=
          more after fewer opened (.inner rfl (.inner rfl (.inner rfl (.inner rfl atom))))
            atomGreedy accepts
        exact ⟨.inner rfl (.inner rfl (.inner rfl whole)), last, split.trans tokens, wholeGreedy,
          ends, accepts⟩

theorem splits (tokens : List Token) :
    SplitsAtom tokens ∧ SplitsMore tokens ∧ SplitsExpression tokens := by
  induction length : tokens.length using Nat.strongRecOn generalizing tokens with
  | ind size ih =>
    subst length
    have atoms (rest : List Token) (fits : rest.length ≤ tokens.length) : SplitsAtom rest :=
      splitsAtom_of_shorter fun shorter fewer =>
        (ih shorter.length (Nat.lt_of_lt_of_le fewer fits) shorter rfl).2.2
    have more (rest : List Token) (fewer : rest.length < tokens.length) : SplitsMore rest :=
      (ih rest.length fewer rest rfl).2.1
    exact ⟨atoms tokens (Nat.le_refl _), splitsMore_of_shorter atoms more,
      splitsExpression_of_shorter (atoms tokens (Nat.le_refl _)) more fun rest fewer =>
        (ih rest.length fewer rest rfl).2.2⟩

theorem exists_greedy_of_accepts {tokens : List Token} (accepts : Outlook.start.Accepts tokens) :
    ∃ phrase : Phrase .expression, phrase.tokens = tokens ∧ phrase.GreedyBefore [] := by
  obtain ⟨phrase, rest, rfl, greedy, ends, accepts⟩ := (splits tokens).2.2 [] accepts
  obtain rfl := Outlook.accepts_end ends accepts
  exact ⟨phrase, by simp, greedy⟩

/-- The automaton accepts what the grammar derives. -/
theorem derives_iff_accepts {tokens : List Token} :
    Derives .expression tokens ↔ Outlook.start.Accepts tokens := by
  constructor
  · rintro ⟨phrase, rfl⟩
    exact Outlook.run_phrase phrase []
  · intro accepts
    obtain ⟨phrase, tokens, _⟩ := exists_greedy_of_accepts accepts
    exact ⟨phrase, tokens⟩

end Funlet.Grammar
