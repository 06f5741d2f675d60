import Funlet.Proofs.Grammar.Outlook
import Funlet.Proofs.Grammar.Readers

/-!
# Reading a phrase

A rule that finds a greedy phrase of its own ahead, and behind it tokens that do not go on with it,
reads the tree of the phrase and nothing more, unless a limit stands in the way.  Which limit, and
where it is met first, follows from the phrase.
-/

set_option autoImplicit false

namespace Funlet.Grammar

def tooTall (tree : Expr) (start : List Token) : Option Fault :=
  if tree.height ≤ Expr.maxHeight then none
  else some (.unexpected .shallowerNesting start)

/-- The first limit that a phrase oversteps in the order of reading, the given number of levels
being allowed and the given tokens following. -/
@[simp]
def Phrase.violation : {rule : Rule} → Phrase rule → Nat → List Token → Option Fault
  | .expression, .inner _ phrase, 0, rest =>
    some (.unexpected .shallowerNesting (phrase.tokens ++ rest))
  | .expression, .inner _ phrase, levels + 1, rest => phrase.violation levels rest
  | _, .inner _ phrase, levels, rest => phrase.violation levels rest
  | _, .letIn keyword bound equals value inWord body, levels, rest =>
    let behindValue := inWord.1 :: (body.tokens ++ rest)
    (value.violation levels behindValue).or ((body.violation levels rest).or
      (tooTall (.letIn bound.1.text value.tree body.tree)
        (keyword.1 :: bound.1 :: equals.1 :: (value.tokens ++ behindValue))))
  | _, .ifThen keyword condition thenWord thenBranch elseWord elseBranch, levels, rest =>
    let behindThen := elseWord.1 :: (elseBranch.tokens ++ rest)
    let behindCondition := thenWord.1 :: (thenBranch.tokens ++ behindThen)
    (condition.violation levels behindCondition).or ((thenBranch.violation levels behindThen).or
      ((elseBranch.violation levels rest).or
        (tooTall (.ifThen condition.tree thenBranch.tree elseBranch.tree)
          (keyword.1 :: (condition.tokens ++ behindCondition)))))
  | _, .join _ left operator right, levels, rest =>
    let behindLeft := operator.1 :: (right.tokens ++ rest)
    (left.violation levels behindLeft).or ((right.violation levels rest).or
      (tooTall (.binary operator.1.text left.tree right.tree) behindLeft))
  | _, .apply function argument, levels, rest =>
    let behindFunction := argument.tokens ++ rest
    (function.violation levels behindFunction).or ((argument.violation levels rest).or
      (tooTall (.apply function.tree argument.tree) behindFunction))
  | _, .number token, _, rest =>
    match Numeral.readReal? token.1.text with
    | none => some (.unreadable token.1.text)
    | some value =>
      if value.isInfinite then some (.unexpected .finiteNumber (token.1 :: rest)) else none
  | _, .name _, _, _ => none
  | _, .paren _ inside closing, levels, rest => inside.violation levels (closing.1 :: rest)
  | _, .lambda keyword parameter arrow body, levels, rest =>
    (body.violation levels rest).or
      (tooTall (.lambda parameter.1.text body.tree)
        (keyword.1 :: parameter.1 :: arrow.1 :: (body.tokens ++ rest)))

def Settles (violation : Option Fault) (result expected : EStateM.Result Fault (List Token) Expr) :
    Prop :=
  match violation with
  | none => result = expected
  | some fault => ∃ rest, result = .error fault rest

theorem Settles.bind {reader : Reader Expr} {next : Expr → Reader Expr}
    {first second : Option Fault} {tokens rest : List Token} {tree : Expr}
    {expected : EStateM.Result Fault (List Token) Expr}
    (reads : Settles first (reader tokens) (.ok tree rest))
    (follows : Settles second (next tree rest) expected) :
    Settles (first.or second) ((reader >>= next) tokens) expected := by
  cases first with
  | none =>
    have reads : reader tokens = .ok tree rest := reads
    rw [bind_ok reads]
    exact follows
  | some fault =>
    obtain ⟨left, fails⟩ := reads
    exact ⟨left, bind_error fails⟩

theorem Settles.bind_none {reader : Reader Expr} {next : Expr → Reader Expr}
    {first : Option Fault} {tokens rest : List Token} {tree : Expr}
    {expected : EStateM.Result Fault (List Token) Expr}
    (reads : Settles first (reader tokens) (.ok tree rest)) (follows : next tree rest = expected) :
    Settles first ((reader >>= next) tokens) expected := by
  rw [← Option.or_none (o := first)]
  exact reads.bind follows

theorem Settles.trans {first second : Option Fault}
    {result middle expected : EStateM.Result Fault (List Token) Expr}
    (reads : Settles first result middle) (follows : Settles second middle expected) :
    Settles (first.or second) result expected := by
  cases first with
  | none =>
    have reads : result = middle := reads
    rw [reads]
    exact follows
  | some fault => exact reads

theorem settles_grown (start : List Token) (node : Expr) (rest : List Token) :
    Settles (tooTall node start) (grown start node rest) (.ok node rest) := by
  unfold tooTall grown
  split
  · rfl
  · exact ⟨rest, rfl⟩

/-! ## The first token of a phrase -/

theorem Phrase.startsAtom_tokens {rule : Rule} (phrase : Phrase rule)
    (operand : rule.demand = .operand) (rest : List Token) :
    startsAtom (phrase.tokens ++ rest) = true := by
  have ran := Outlook.run_phrase phrase []
  rw [operand] at ran
  cases front : phrase.tokens with
  | nil => simp [front] at ran
  | cons token more =>
    rw [front, Outlook.run_cons, Option.bind_eq_some_iff] at ran
    obtain ⟨next, taken, _⟩ := ran
    simp only [Outlook.step, Outlook.intoAtom] at taken
    split at taken <;> simp_all [startsAtom]

theorem startsWith_of_startsAtom {kind : Kind} {tokens : List Token}
    (other : kind = .letWord ∨ kind = .ifWord) (atom : startsAtom tokens = true) :
    startsWith kind tokens = false := by
  cases tokens with
  | nil => rfl
  | cons token rest =>
    simp only [startsAtom] at atom
    simp only [startsWith, beq_eq_false_iff_ne, ne_eq]
    rintro rfl
    rcases other with letWord | ifWord <;> simp_all

theorem Phrase.startsWith_let_ifForm (phrase : Phrase .ifForm) (rest : List Token) :
    startsWith .letWord (phrase.tokens ++ rest) = false := by
  cases phrase with
  | @inner _ below passes phrase =>
    obtain rfl := Option.some.inj passes
    exact startsWith_of_startsAtom (.inl rfl) (phrase.startsAtom_tokens rfl rest)
  | ifThen keyword => simp [startsWith, keyword.2]
  | join _ _ operator => exact absurd operator.2.2 (by simp [Rule.operators])

/-! ## Going on behind a phrase -/

/-- How a rule goes on when it has read an expression: rules with a repetition look for more, and
the number bounds how often. -/
def Rule.resume (levels bound : Nat) (tree : Expr) : Rule → Reader Expr
  | .comparison => operations Operator.comparison (Rule.additive.read levels) bound tree
  | .additive => operations Operator.additive (Rule.multiplicative.read levels) bound tree
  | .multiplicative => operations Operator.multiplicative (Rule.application.read levels) bound tree
  | .application => arguments (Grammar.expression levels) bound tree
  | _ => return tree

theorem Ends.startsAtom {rule : Rule} {tokens : List Token} (ends : Ends rule tokens)
    (repeats : rule ≠ .atom ∧ rule ≠ .lambdaForm) : startsAtom tokens = false := by
  cases tokens with
  | nil => rfl
  | cons token rest =>
    cases rule <;> simp_all [Ends, Rule.continues, Grammar.startsAtom]

theorem Ends.startsOperator {rule : Rule} {tokens : List Token} (ends : Ends rule tokens) :
    startsOperator rule.operators tokens = false := by
  cases tokens with
  | nil => rfl
  | cons token rest =>
    cases rule <;>
      simp_all [Ends, Rule.continues, Grammar.startsOperator, Rule.operators, Rule.reach]

theorem Rule.resume_of_ends {rule : Rule} {tokens : List Token} (ends : Ends rule tokens)
    (levels bound : Nat) (tree : Expr) :
    rule.resume levels bound tree tokens = .ok tree tokens := by
  cases rule with
  | comparison => exact operations_stop bound tree ends.startsOperator
  | additive => exact operations_stop bound tree ends.startsOperator
  | multiplicative => exact operations_stop bound tree ends.startsOperator
  | application => exact arguments_stop bound tree (ends.startsAtom (by decide))
  | _ => rfl

/-- Tokens that do not go on with a phrase do not go on with a phrase of the rule below. -/
theorem Ends.below {rule below : Rule} {tokens : List Token} (passes : rule.below = some below)
    (ends : Ends rule tokens) : Ends below tokens := by
  cases tokens with
  | nil => trivial
  | cons token rest =>
    cases rule <;> simp only [Rule.below, Option.some.injEq, reduceCtorEq] at passes <;>
      subst passes <;>
      simp_all [Ends, Rule.continues, Grammar.startsOperator, Rule.reach]

theorem operators_disjoint_reach {rule below : Rule} (passes : rule.below = some below) :
    ∀ text ∈ rule.operators, text ∉ below.reach := by
  cases rule <;> simp only [Rule.below, Option.some.injEq, reduceCtorEq] at passes <;>
    subst passes <;> decide

theorem ends_below_operator {rule below : Rule} (passes : rule.below = some below)
    (operator : Sign rule.operators) (rest : List Token) : Ends below (operator.1 :: rest) := by
  obtain ⟨token, kind, text⟩ := operator
  have notAtom : startsAtom [token] = false := by simp [startsAtom, kind]
  have notOperator : token.text ∉ below.reach := operators_disjoint_reach passes _ text
  cases below <;> simp_all [Ends, Rule.continues, startsOperator]

theorem Rule.read_repeats {rule below : Rule} (passes : rule.below = some below)
    (repeats : rule.operators ≠ [] ∨ rule = .application) (levels : Nat) (tokens : List Token) :
    rule.read levels tokens =
      (do
        let first ← below.read levels
        let rest ← get
        rule.resume levels rest.length first : Reader Expr) tokens := by
  cases rule <;> simp only [Rule.below, Option.some.injEq, reduceCtorEq] at passes <;>
    subst passes <;> simp_all [Rule.operators] <;> rfl

theorem Rule.resume_operator {rule below : Rule} (passes : rule.below = some below)
    (operator : Sign rule.operators) (levels bound : Nat) (left : Expr) (rest : List Token) :
    rule.resume levels (bound + 1) left (operator.1 :: rest) =
      (do
        let right ← below.read levels
        let node ← grown (operator.1 :: rest) (.binary operator.1.text left right)
        rule.resume levels bound node : Reader Expr) rest := by
  obtain ⟨token, kind, text⟩ := operator
  have starts : Grammar.startsOperator rule.operators (token :: rest) = true := by
    simp [Grammar.startsOperator, kind, text]
  cases rule <;> simp only [Rule.below, Option.some.injEq, reduceCtorEq] at passes <;>
    subst passes <;>
    first
      | exact operations_cons starts
      | simp [Rule.operators] at text

theorem Phrase.exists_lambda_tokens (phrase : Phrase .lambdaForm) :
    ∃ (keyword : Terminal .lambda) (more : List Token), phrase.tokens = keyword.1 :: more := by
  cases phrase with
  | inner passes _ => simp [Rule.below] at passes
  | join passes _ _ _ => simp [Rule.below] at passes
  | lambda keyword parameter arrow body => exact ⟨keyword, _, rfl⟩

/-- What it means that a rule reads a phrase: as far as tokens of the rule below go, it has read the
phrase and can go on behind it. -/
def Resumes {rule : Rule} (phrase : Phrase rule) : Prop :=
  ∀ (levels : Nat) (rest : List Token), phrase.GreedyBefore rest →
    (∀ below, rule.below = some below → Ends below rest) →
      ∃ bound, rest.length ≤ bound ∧
        Settles (phrase.violation levels rest) (rule.read levels (phrase.tokens ++ rest))
          (rule.resume levels bound phrase.tree rest)

theorem Resumes.reads {rule : Rule} {phrase : Phrase rule} (resumes : Resumes phrase)
    {levels : Nat} {rest : List Token} (greedy : phrase.GreedyBefore rest)
    (ends : Ends rule rest) :
    Settles (phrase.violation levels rest) (rule.read levels (phrase.tokens ++ rest))
      (.ok phrase.tree rest) := by
  obtain ⟨bound, _, settles⟩ :=
    resumes levels rest greedy fun below passes => Ends.below passes ends
  rwa [Rule.resume_of_ends ends] at settles

theorem ends_terminal {kind : Kind} (token : Terminal kind)
    (closes : kind = .rightParen ∨ kind = .inWord ∨ kind = .thenWord ∨ kind = .elseWord)
    (rest : List Token) : Ends .expression (token.1 :: rest) := by
  have fits := token.2
  rcases closes with rfl | rfl | rfl | rfl <;>
    simp [Ends, Rule.continues, startsAtom, startsOperator, fits]

theorem resumes_inner {rule below : Rule} (passes : rule.below = some below)
    {phrase : Phrase below} (resumes : Resumes phrase) :
    Resumes (Phrase.inner passes phrase) := by
  intro levels rest greedy ends
  have ends := ends below passes
  have reads (levels : Nat) : Settles (phrase.violation levels rest)
      (below.read levels (phrase.tokens ++ rest)) (.ok phrase.tree rest) :=
    resumes.reads greedy ends
  have repeats (again : rule.operators ≠ [] ∨ rule = .application) :
      Settles (phrase.violation levels rest) (rule.read levels (phrase.tokens ++ rest))
        (rule.resume levels rest.length phrase.tree rest) := by
    rw [Rule.read_repeats passes again]
    exact (reads levels).bind_none rfl
  refine ⟨rest.length, Nat.le_refl _, ?_⟩
  cases rule with
  | expression =>
    cases levels with
    | zero => exact ⟨phrase.tokens ++ rest, rfl⟩
    | succ levels =>
      obtain rfl := Option.some.inj passes
      exact reads levels
  | letForm =>
    obtain rfl := Option.some.inj passes
    have other := letForm_other (Grammar.expression levels)
      (phrase.startsWith_let_ifForm rest)
    simp only [Phrase.tokens, Rule.read, other]
    exact reads levels
  | ifForm =>
    obtain rfl := Option.some.inj passes
    have other := ifForm_other (Grammar.expression levels)
      (startsWith_of_startsAtom (.inr rfl) (phrase.startsAtom_tokens rfl rest))
    simp only [Phrase.tokens, Rule.read, other]
    exact reads levels
  | comparison => exact repeats (.inl (by decide))
  | additive => exact repeats (.inl (by decide))
  | multiplicative => exact repeats (.inl (by decide))
  | application => exact repeats (.inr rfl)
  | atom =>
    obtain rfl := Option.some.inj passes
    obtain ⟨keyword, more, front⟩ := phrase.exists_lambda_tokens
    have reads := reads levels
    simp only [Phrase.tokens, Rule.read, front, List.cons_append] at reads ⊢
    rw [atom_lambda]
    exact reads
  | lambdaForm => simp [Rule.below] at passes

theorem resumes_join {rule below : Rule} (passes : rule.below = some below)
    {left : Phrase rule} (operator : Sign rule.operators) {right : Phrase below}
    (leftResumes : Resumes left) (rightResumes : Resumes right) :
    Resumes (Phrase.join passes left operator right) := by
  intro levels rest greedy ends
  have leftEnds (other : Rule) (passes' : rule.below = some other) :
      Ends other (operator.1 :: (right.tokens ++ rest)) := ends_below_operator passes' operator _
  obtain ⟨bound, enough, settles⟩ := leftResumes levels _ greedy.1 leftEnds
  cases bound with
  | zero => simp at enough
  | succ bound =>
    have fewer : rest.length ≤ bound := by
      simp only [List.length_cons, List.length_append] at enough
      omega
    refine ⟨bound, fewer, ?_⟩
    simp only [Phrase.tokens, Phrase.violation, List.append_assoc, List.cons_append]
    refine settles.trans ?_
    rw [Rule.resume_operator passes]
    refine (rightResumes.reads greedy.2 (ends below passes)).bind ?_
    exact (settles_grown _ _ rest).bind_none rfl

theorem resumes_apply {function : Phrase .application} {argument : Phrase .atom}
    (functionResumes : Resumes function) (argumentResumes : Resumes argument) :
    Resumes (Phrase.apply function argument) := by
  intro levels rest greedy ends
  obtain ⟨bound, enough, settles⟩ := functionResumes levels _ greedy.1 (fun below passes => by
    obtain rfl := Option.some.inj passes
    cases argument.tokens ++ rest <;> simp [Ends, Rule.continues])
  cases bound with
  | zero =>
    have filled : 0 < argument.tokens.length := List.length_pos_iff.mpr argument.tokens_ne_nil
    simp only [List.length_append] at enough
    omega
  | succ bound =>
    have filled : 0 < argument.tokens.length := List.length_pos_iff.mpr argument.tokens_ne_nil
    have fewer : rest.length ≤ bound := by
      simp only [List.length_append] at enough
      omega
    refine ⟨bound, fewer, ?_⟩
    simp only [Phrase.tokens, Phrase.violation, List.append_assoc]
    refine settles.trans ?_
    simp only [Rule.resume]
    rw [arguments_cons (argument.startsAtom_tokens rfl rest)]
    refine (argumentResumes.reads greedy.2 (ends .atom rfl)).bind ?_
    exact (settles_grown _ _ rest).bind_none rfl

theorem resumes_letIn (keyword : Terminal .letWord) (bound : Terminal .name) (equals : Sign ["="])
    {value : Phrase .expression} (inWord : Terminal .inWord) {body : Phrase .expression}
    (valueResumes : Resumes value) (bodyResumes : Resumes body) :
    Resumes (Phrase.letIn keyword bound equals value inWord body) := by
  intro levels rest greedy ends
  refine ⟨rest.length, Nat.le_refl _, ?_⟩
  simp only [Phrase.tokens, Phrase.violation, Rule.read, List.cons_append, List.append_assoc]
  rw [letForm_let, bind_ok (expect_terminal bound _), bind_ok (expectText_sign equals _)]
  refine (valueResumes.reads greedy.1 (ends_terminal inWord (by simp) _)).bind ?_
  rw [bind_ok (expect_terminal inWord _)]
  refine (bodyResumes.reads greedy.2 (ends .ifForm rfl)).bind ?_
  exact settles_grown _ _ rest

theorem resumes_ifThen (keyword : Terminal .ifWord) {condition : Phrase .expression}
    (thenWord : Terminal .thenWord) {thenBranch : Phrase .expression}
    (elseWord : Terminal .elseWord) {elseBranch : Phrase .expression}
    (conditionResumes : Resumes condition) (thenResumes : Resumes thenBranch)
    (elseResumes : Resumes elseBranch) :
    Resumes (Phrase.ifThen keyword condition thenWord thenBranch elseWord elseBranch) := by
  intro levels rest greedy ends
  refine ⟨rest.length, Nat.le_refl _, ?_⟩
  simp only [Phrase.tokens, Phrase.violation, Rule.read, List.cons_append, List.append_assoc]
  rw [ifForm_if]
  refine (conditionResumes.reads greedy.1 (ends_terminal thenWord (by simp) _)).bind ?_
  rw [bind_ok (expect_terminal thenWord _)]
  refine (thenResumes.reads greedy.2.1 (ends_terminal elseWord (by simp) _)).bind ?_
  rw [bind_ok (expect_terminal elseWord _)]
  refine (elseResumes.reads greedy.2.2 (ends .comparison rfl)).bind ?_
  exact settles_grown _ _ rest

theorem resumes_number (token : Terminal .number) : Resumes (Phrase.number token) := by
  intro levels rest _ _
  refine ⟨rest.length, Nat.le_refl _, ?_⟩
  simp only [Phrase.tokens, Phrase.violation, Phrase.tree, Rule.read, List.cons_append,
    List.nil_append, Token.value]
  rw [atom_number, numberAtom_eq]
  cases Numeral.readReal? token.1.text with
  | none => exact ⟨token.1 :: rest, rfl⟩
  | some value =>
    cases infinite : value.isInfinite with
    | true => simp [Settles, infinite]
    | false => simp [Settles, infinite, Rule.resume, pure, EStateM.pure]

theorem resumes_paren (opening : Terminal .leftParen) {inside : Phrase .expression}
    (closing : Terminal .rightParen) (insideResumes : Resumes inside) :
    Resumes (Phrase.paren opening inside closing) := by
  intro levels rest greedy _
  refine ⟨rest.length, Nat.le_refl _, ?_⟩
  simp only [Phrase.tokens, Phrase.violation, Rule.read, List.cons_append, List.append_assoc,
    List.nil_append]
  rw [atom_paren]
  refine (insideResumes.reads greedy (ends_terminal closing (by simp) _)).bind_none ?_
  rw [bind_ok (expect_terminal closing _)]
  rfl

theorem resumes_lambda (keyword : Terminal .lambda) (parameter : Terminal .name)
    (arrow : Terminal .arrow) {body : Phrase .expression} (bodyResumes : Resumes body) :
    Resumes (Phrase.lambda keyword parameter arrow body) := by
  intro levels rest greedy _
  refine ⟨rest.length, Nat.le_refl _, ?_⟩
  simp only [Phrase.tokens, Phrase.violation, Rule.read, List.cons_append]
  rw [lambdaForm_keyword, bind_ok (expect_terminal parameter _), bind_ok (expect_terminal arrow _)]
  exact (bodyResumes.reads greedy.2 greedy.1).bind (settles_grown _ _ rest)

theorem resumes {rule : Rule} (phrase : Phrase rule) : Resumes phrase := by
  induction phrase with
  | inner passes phrase ih => exact resumes_inner passes ih
  | letIn keyword bound equals value inWord body valueIh bodyIh =>
    exact resumes_letIn keyword bound equals inWord valueIh bodyIh
  | ifThen keyword condition thenWord thenBranch elseWord elseBranch conditionIh thenIh elseIh =>
    exact resumes_ifThen keyword thenWord elseWord conditionIh thenIh elseIh
  | join passes left operator right leftIh rightIh =>
    exact resumes_join passes operator leftIh rightIh
  | apply function argument functionIh argumentIh => exact resumes_apply functionIh argumentIh
  | number token => exact resumes_number token
  | name token => exact fun _ rest _ _ => ⟨rest.length, Nat.le_refl _, atom_name token rest⟩
  | paren opening inside closing insideIh => exact resumes_paren opening closing insideIh
  | lambda keyword parameter arrow body bodyIh =>
    exact resumes_lambda keyword parameter arrow bodyIh

/-- A rule reads a greedy phrase that is not gone on with, or fails where the phrase first oversteps
a limit. -/
theorem reads_phrase {rule : Rule} (phrase : Phrase rule) {rest : List Token}
    (greedy : phrase.GreedyBefore rest) (ends : Ends rule rest) (levels : Nat) :
    Settles (phrase.violation levels rest) (rule.read levels (phrase.tokens ++ rest))
      (.ok phrase.tree rest) :=
  (resumes phrase).reads greedy ends

end Funlet.Grammar
