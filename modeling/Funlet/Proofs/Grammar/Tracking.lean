import Funlet.Proofs.Grammar.Readers
import Funlet.Proofs.Grammar.Greedy

/-!
# Rules follow the outlook

On any tokens a rule moves from outlook to outlook, token by token.  Where it succeeds it has read
tokens that its rule derives, and stops before a token that does not go on with them.  Where it
fails for want of a token, the outlook there asks for just that, and the next token, if there is
one, is none that the outlook allows.
-/

set_option autoImplicit false

namespace Funlet

def Expectation.isLimit : Expectation → Bool
  | .shallowerNesting => true
  | .finiteNumber => true
  | _ => false

namespace Grammar

def Outlook.expectation : Outlook → Expectation
  | ⟨.expression, _⟩ => .expression
  | ⟨.operand, _⟩ => .expression
  | ⟨.bound, _⟩ => .kind .name
  | ⟨.equals, _⟩ => .text "="
  | ⟨.parameter, _⟩ => .kind .name
  | ⟨.arrow, _⟩ => .kind .arrow
  | ⟨.more, []⟩ => .endOfInput
  | ⟨.more, bracket :: _⟩ => .kind bracket.closer

def Outlook.Refuses (outlook : Outlook) : List Token → Prop
  | [] => outlook ≠ .finish
  | token :: _ => outlook.step token = none

/-- A fault met in some tokens is a limit, or a number that is none, or the tokens lead to an
outlook that refuses to go on. -/
def Outlook.Blames (outlook : Outlook) (tokens : List Token) : Fault → Prop
  | .unreadable text =>
    ∃ token ∈ tokens, token.kind = .number ∧ token.text = text ∧ Numeral.readReal? text = none
  | .unexpected expected rest =>
    expected.isLimit = true ∨
      ∃ (used : List Token) (stuck : Outlook), tokens = used ++ rest ∧
        outlook.run used = some stuck ∧ expected = stuck.expectation ∧ stuck.Refuses rest

/-- A result of reading tokens leads from one outlook to another and leaves tokens that satisfy a
condition, or its fault is to blame. -/
def Tracks {α : Type} (before after : Outlook) (done : List Token → Prop) (tokens : List Token) :
    EStateM.Result Fault (List Token) α → Prop
  | .ok _ rest =>
    ∃ used : List Token, tokens = used ++ rest ∧ before.run used = some after ∧ done rest
  | .error fault _ => before.Blames tokens fault

theorem Outlook.Blames.append {before middle : Outlook} {used rest : List Token} {fault : Fault}
    (taken : before.run used = some middle) (blames : middle.Blames rest fault) :
    before.Blames (used ++ rest) fault := by
  cases fault with
  | unreadable text =>
    obtain ⟨token, member, details⟩ := blames
    exact ⟨token, List.mem_append_right used member, details⟩
  | unexpected expected left =>
    rcases blames with limit | ⟨more, stuck, rfl, ran, expects, refuses⟩
    · exact .inl limit
    · exact .inr ⟨used ++ more, stuck, by simp,
        (Outlook.run_append_of_run taken more).trans ran, expects, refuses⟩

section Steps

variable {α β : Type} {before middle after : Outlook} {done last : List Token → Prop}

theorem Tracks.cons {token : Token} {rest : List Token}
    {result : EStateM.Result Fault (List Token) α} (taken : before.step token = some middle)
    (tracks : Tracks middle after done rest result) :
    Tracks before after done (token :: rest) result := by
  have first : before.run [token] = some middle := Outlook.run_of_step taken []
  cases result with
  | ok value left =>
    obtain ⟨used, rfl, ran, holds⟩ := tracks
    exact ⟨token :: used, rfl, (Outlook.run_of_step taken used).trans ran, holds⟩
  | error fault left => exact Outlook.Blames.append first tracks

theorem Tracks.bind {first : Reader α} {next : α → Reader β} {tokens : List Token}
    (tracks : Tracks before middle done tokens (first tokens))
    (follows : ∀ value used rest, tokens = used ++ rest → before.run used = some middle →
      done rest → Tracks middle after last rest (next value rest)) :
    Tracks before after last tokens ((first >>= next) tokens) := by
  cases reads : first tokens with
  | error fault left =>
    rw [bind_error reads]
    rw [reads] at tracks
    exact tracks
  | ok value rest =>
    rw [bind_ok reads]
    rw [reads] at tracks
    obtain ⟨used, rfl, ran, holds⟩ := tracks
    have tracks := follows value used rest rfl ran holds
    cases result : next value rest with
    | error fault left =>
      rw [result] at tracks
      exact Outlook.Blames.append ran tracks
    | ok value left =>
      rw [result] at tracks
      obtain ⟨more, rfl, ran', holds⟩ := tracks
      exact ⟨used ++ more, by simp, (Outlook.run_append_of_run ran more).trans ran', holds⟩

theorem Tracks.mono {tokens : List Token} {result : EStateM.Result Fault (List Token) α}
    (weaker : ∀ rest, done rest → last rest) (tracks : Tracks before after done tokens result) :
    Tracks before after last tokens result := by
  cases result with
  | ok value rest =>
    obtain ⟨used, split, ran, holds⟩ := tracks
    exact ⟨used, split, ran, weaker rest holds⟩
  | error fault rest => exact tracks

theorem tracks_ok {value : α} {rest : List Token} (holds : done rest) :
    Tracks before before done rest (.ok value rest) :=
  ⟨[], rfl, rfl, holds⟩

theorem tracks_refused {expected : Expectation} {tokens left : List Token}
    (expects : expected = before.expectation) (refuses : before.Refuses tokens) :
    Tracks before after done tokens
      (.error (.unexpected expected tokens) left : EStateM.Result Fault (List Token) α) :=
  .inr ⟨[], before, rfl, rfl, expects, refuses⟩

theorem tracks_grown {start rest : List Token} {node : Expr} (holds : done rest) :
    Tracks before before done rest (grown start node rest) := by
  unfold grown
  split
  · exact tracks_ok holds
  · exact .inl rfl

theorem tracks_grown_bind {start rest : List Token} {node : Expr} {next : Expr → Reader β}
    (follows : Tracks before after done rest (next node rest)) :
    Tracks before after done rest ((grown start node >>= next) rest) := by
  by_cases fits : node.height ≤ Expr.maxHeight
  · have completed : grown start node rest = .ok node rest := if_pos fits
    rw [bind_ok completed]
    exact follows
  · have fails : grown start node rest = .error (.unexpected .shallowerNesting start) rest :=
      if_neg fits
    rw [bind_error fails]
    exact .inl rfl

theorem tracks_expect {kind : Kind} {tokens : List Token}
    (takes : ∀ token, token.kind = kind → before.step token = some after)
    (expects : .kind kind = before.expectation) (unfinished : before ≠ .finish)
    (refuses : ∀ token rest, tokens = token :: rest → token.kind ≠ kind →
      before.step token = none) :
    Tracks before after (fun _ => True) tokens (expect kind tokens) := by
  cases tokens with
  | nil => exact tracks_refused expects unfinished
  | cons token rest =>
    simp only [expect]
    split
    · rename_i kind
      exact (tracks_ok trivial).cons (takes token kind)
    · rename_i other
      exact tracks_refused expects (refuses token rest rfl other)

theorem tracks_expect_only {kind : Kind} {tokens : List Token}
    (steps : ∀ token, before.step token = if token.kind = kind then some after else none)
    (expects : .kind kind = before.expectation) (unfinished : before ≠ .finish) :
    Tracks before after (fun _ => True) tokens (expect kind tokens) :=
  tracks_expect (fun token known => by rw [steps token, if_pos known]) expects unfinished
    fun token _ _ other => by rw [steps token, if_neg other]

theorem tracks_expect_equals (opened : List Bracket) (tokens : List Token) :
    Tracks ⟨.equals, opened⟩ ⟨.expression, .value :: opened⟩ (fun _ => True) tokens
      (expectText .operator "=" tokens) := by
  cases tokens with
  | nil => exact tracks_refused rfl (by simp [Outlook.Refuses, Outlook.finish])
  | cons token rest =>
    simp only [expectText]
    split
    · rename_i sign
      exact (tracks_ok trivial).cons (by simp [Outlook.step, sign])
    · rename_i other
      exact tracks_refused rfl (by simp only [Outlook.Refuses, Outlook.step, if_neg other])

theorem Tracks.widen {tokens : List Token} {result : EStateM.Result Fault (List Token) α}
    {wider : Outlook} (moves : before ≠ after)
    (steps : ∀ token next, before.step token = some next → wider.step token = some next)
    (refuses : before.Refuses tokens → wider.Refuses tokens)
    (expects : before.expectation = wider.expectation ∨ ¬ before.Refuses tokens)
    (tracks : Tracks before after done tokens result) : Tracks wider after done tokens result := by
  have runs {used : List Token} {next : Outlook} (filled : used ≠ [])
      (ran : before.run used = some next) : wider.run used = some next := by
    cases used with
    | nil => exact absurd rfl filled
    | cons token used =>
      obtain ⟨second, taken, rest⟩ := Option.bind_eq_some_iff.mp (Outlook.run_cons .. ▸ ran)
      exact (Outlook.run_of_step (steps token second taken) used).trans rest
  cases result with
  | ok value rest =>
    obtain ⟨used, split, ran, holds⟩ := tracks
    exact ⟨used, split, Outlook.run_congr_head moves steps ran, holds⟩
  | error fault left =>
    cases fault with
    | unreadable text => exact tracks
    | unexpected expected rest =>
      rcases tracks with limit | ⟨used, stuck, split, ran, expected, refused⟩
      · exact .inl limit
      · cases used with
        | nil =>
          obtain rfl := Option.some.inj ran
          obtain rfl : tokens = rest := split
          have same := expects.resolve_right (not_not_intro refused)
          exact .inr ⟨[], wider, rfl, rfl, expected.trans same, refuses refused⟩
        | cons token used =>
          exact .inr ⟨token :: used, stuck, split, runs (by simp) ran, expected, refused⟩

end Steps

/-! ## Rules -/

/-- On any tokens a rule leads from the outlook at its front to the one after it, and stops before
tokens that do not go on with it. -/
def Tracked (rule : Rule) (reader : Reader Expr) : Prop :=
  ∀ (opened : List Bracket) (tokens : List Token),
    Tracks ⟨rule.demand, opened⟩ ⟨.more, opened⟩ (Ends rule) tokens (reader tokens)

theorem step_more_of_ends {bracket : Bracket} {outer : List Bracket} {tokens : List Token}
    (ends : Ends .expression tokens) (token : Token) (rest : List Token)
    (split : tokens = token :: rest) (other : token.kind ≠ bracket.closer) :
    Outlook.step ⟨.more, bracket :: outer⟩ token = none := by
  subst split
  simp only [Ends, Rule.continues, Bool.or_eq_false_iff] at ends
  simp [Outlook.step, ends.1, ends.2, Outlook.close, other]

theorem tracks_expect_closer (bracket : Bracket) {outer : List Bracket} {tokens : List Token}
    (ends : Ends .expression tokens) :
    Tracks ⟨.more, bracket :: outer⟩ (Outlook.closed outer bracket) (fun _ => True) tokens
      (expect bracket.closer tokens) :=
  tracks_expect (fun _ kind => Outlook.step_closer bracket kind outer) rfl
    (by simp [Outlook.finish]) (step_more_of_ends ends)

section Rules

variable {expression : Reader Expr} (tracked : Tracked .expression expression)

include tracked

theorem tracks_lambdaForm (opened : List Bracket) (keyword : Terminal .lambda)
    (rest : List Token) :
    Tracks ⟨.operand, opened⟩ ⟨.more, opened⟩ (fun _ => True) (keyword.1 :: rest)
      (lambdaForm expression (keyword.1 :: rest)) := by
  have first : Outlook.step ⟨.operand, opened⟩ keyword.1 = some ⟨.parameter, opened⟩ := by
    simp [Outlook.step, Outlook.intoAtom, keyword.2]
  have name : Tracks ⟨.parameter, opened⟩ ⟨.arrow, opened⟩ (fun _ => True) rest
      (expect .name rest) :=
    tracks_expect_only (fun _ => rfl) rfl (by simp [Outlook.finish])
  rw [lambdaForm_keyword]
  refine (name.bind fun parameter _ rest _ _ _ => ?_).cons first
  have arrow : Tracks ⟨.arrow, opened⟩ ⟨.expression, opened⟩ (fun _ => True) rest
      (expect .arrow rest) :=
    tracks_expect_only (fun _ => rfl) rfl (by simp [Outlook.finish])
  refine arrow.bind fun _ _ rest _ _ _ => ?_
  exact (tracked opened rest).bind fun _ _ _ _ _ _ => tracks_grown trivial

theorem tracked_atom : Tracked .atom (atom expression) := by
  intro opened tokens
  have anything {rest : List Token} : Ends .atom rest := by
    cases rest <;> simp [Ends, Rule.continues]
  cases tokens with
  | nil => exact tracks_refused rfl (by simp [Outlook.Refuses, Outlook.finish, Rule.demand])
  | cons token rest =>
    have leaf (known : token.kind = .number ∨ token.kind = .name) :
        Outlook.step ⟨.operand, opened⟩ token = some ⟨.more, opened⟩ := by
      rcases known with kind | kind <;> simp [Outlook.step, Outlook.intoAtom, kind]
    by_cases starts : startsAtom [token] = true
    · simp only [startsAtom] at starts
      split at starts
      · rename_i number
        rw [atom_number ⟨token, number⟩, numberAtom_eq]
        cases read : Numeral.readReal? token.text with
        | none => exact ⟨token, by simp, number, rfl, read⟩
        | some value =>
          cases infinite : value.isInfinite with
          | true => simp [Tracks, Outlook.Blames, infinite, Expectation.isLimit]
          | false =>
            simp only [infinite, Bool.false_eq_true, if_false]
            exact (tracks_ok anything).cons (leaf (.inl number))
      · rename_i name
        rw [atom_name ⟨token, name⟩]
        exact (tracks_ok anything).cons (leaf (.inr name))
      · rename_i paren
        have first : Outlook.step ⟨.operand, opened⟩ token =
            some ⟨.expression, .paren :: opened⟩ := by
          simp [Outlook.step, Outlook.intoAtom, paren]
        rw [atom_paren ⟨token, paren⟩]
        refine ((tracked (.paren :: opened) rest).bind fun _ _ rest _ _ ends => ?_).cons first
        refine (tracks_expect_closer .paren ends).bind fun _ _ _ _ _ _ => ?_
        exact tracks_ok anything
      · rename_i lambda
        rw [atom_lambda ⟨token, lambda⟩]
        exact (tracks_lambdaForm tracked opened ⟨token, lambda⟩ rest).mono fun _ _ => anything
      · simp at starts
    · have other : startsAtom (token :: rest) = false := by
        simpa [startsAtom] using starts
      rw [atom_fails other]
      refine tracks_refused rfl ?_
      simp only [Outlook.Refuses, Outlook.step, Rule.demand, Outlook.intoAtom]
      simp only [startsAtom] at other
      split at other <;> simp_all

theorem tracks_arguments (opened : List Bracket) (bound : Nat) (function : Expr)
    (tokens : List Token) (enough : tokens.length ≤ bound) :
    Tracks ⟨.more, opened⟩ ⟨.more, opened⟩ (Ends .application) tokens
      (arguments expression bound function tokens) := by
  induction bound generalizing function tokens with
  | zero =>
    obtain rfl := List.length_eq_zero_iff.mp (Nat.le_zero.mp enough)
    exact tracks_ok trivial
  | succ bound ih =>
    cases starts : startsAtom tokens with
    | false =>
      rw [arguments_stop _ _ starts]
      refine tracks_ok ?_
      cases tokens with
      | nil => trivial
      | cons token rest => simp_all [Ends, Rule.continues, startsAtom, startsOperator, Rule.reach]
    | true =>
      have allowed : ¬ Outlook.Refuses ⟨.operand, opened⟩ tokens := by
        cases tokens with
        | nil => simp [startsAtom] at starts
        | cons token rest =>
          simp only [startsAtom] at starts
          simp only [Outlook.Refuses, Outlook.step, Outlook.intoAtom]
          split at starts <;> simp_all
      rw [arguments_cons starts]
      suffices operand : Tracks ⟨.operand, opened⟩ ⟨.more, opened⟩ (Ends .application) tokens _ from
        operand.widen (by simp) (fun _ _ => Outlook.step_more_of_operand)
          (fun refuses => absurd refuses allowed) (.inr allowed)
      refine (tracked_atom tracked opened tokens).bind fun argument used rest split ran _ => ?_
      have filled : 0 < used.length := by
        cases used with
        | nil => simp [Rule.demand] at ran
        | cons token used => simp
      have fewer : rest.length ≤ bound := by
        rw [split, List.length_append] at enough
        omega
      exact tracks_grown_bind (ih _ rest fewer)

theorem tracked_application : Tracked .application (application expression) := by
  intro opened tokens
  rw [application_eq]
  refine (tracked_atom tracked opened tokens).bind fun function _ rest _ _ _ => ?_
  rw [get_bind]
  exact tracks_arguments tracked opened rest.length function rest (Nat.le_refl _)

end Rules

/-! ## Repeated operators -/

theorem ends_of_below {rule below : Rule} (passes : rule.below = some below)
    (repeats : rule.operators ≠ []) {tokens : List Token} (ends : Ends below tokens)
    (stops : startsOperator rule.operators tokens = false) : Ends rule tokens := by
  cases tokens with
  | nil => trivial
  | cons token rest =>
    cases rule <;> simp only [Rule.below, Option.some.injEq, reduceCtorEq] at passes <;>
      subst passes <;>
      simp_all [Ends, Rule.continues, startsOperator, Rule.operators, Rule.reach]

theorem tracks_operations {rule below : Rule} (passes : rule.below = some below)
    (repeats : rule.operators ≠ []) (operandDemand : below.demand = .operand)
    {operand : Reader Expr} (tracked : Tracked below operand) (opened : List Bracket) (bound : Nat)
    (left : Expr) (tokens : List Token) (enough : tokens.length ≤ bound)
    (ends : Ends below tokens) :
    Tracks ⟨.more, opened⟩ ⟨.more, opened⟩ (Ends rule) tokens
      (operations rule.operators operand bound left tokens) := by
  induction bound generalizing left tokens with
  | zero =>
    obtain rfl := List.length_eq_zero_iff.mp (Nat.le_zero.mp enough)
    exact tracks_ok trivial
  | succ bound ih =>
    cases starts : startsOperator rule.operators tokens with
    | false =>
      rw [operations_stop _ _ starts]
      exact tracks_ok (ends_of_below passes repeats ends starts)
    | true =>
      cases tokens with
      | nil => simp [startsOperator] at starts
      | cons token rest =>
        rw [operations_cons starts]
        simp only [startsOperator, Bool.and_eq_true, beq_iff_eq, List.contains_eq_mem,
          decide_eq_true_eq] at starts
        have taken : Outlook.step ⟨.more, opened⟩ token = some ⟨.operand, opened⟩ :=
          Outlook.step_operator ⟨token, starts⟩ opened (Outlook.operators_subset_reach rule)
        refine Tracks.cons taken ?_
        rw [← operandDemand]
        refine (tracked opened rest).bind fun right used after split _ ends => ?_
        have fewer : after.length ≤ bound := by
          have := congrArg List.length split
          simp only [List.length_append, List.length_cons] at this enough
          omega
        exact tracks_grown_bind (ih _ after fewer ends)

theorem tracked_chain (rule : Rule) {below : Rule} (passes : rule.below = some below)
    (repeats : rule.operators ≠ []) (demand : rule.demand = below.demand)
    (operandDemand : below.demand = .operand) {operand : Reader Expr}
    (tracked : Tracked below operand) : Tracked rule (chain rule.operators operand) := by
  intro opened tokens
  unfold chain
  rw [demand]
  refine (tracked opened tokens).bind fun left _ rest _ _ ends => ?_
  rw [get_bind]
  exact tracks_operations passes repeats operandDemand tracked opened rest.length left rest
    (Nat.le_refl _) ends

section Expressions

variable {expression : Reader Expr} (tracked : Tracked .expression expression)

include tracked

theorem tracked_comparison : Tracked .comparison (comparison expression) := by
  have products : Tracked .multiplicative (multiplicative expression) :=
    tracked_chain .multiplicative rfl (by decide) rfl rfl (tracked_application tracked)
  have sums : Tracked .additive (additive expression) :=
    tracked_chain .additive rfl (by decide) rfl rfl products
  exact tracked_chain .comparison rfl (by decide) rfl rfl sums

theorem tracks_letForm_let (opened : List Bracket) (keyword : Terminal .letWord)
    (rest : List Token) :
    Tracks ⟨.expression, opened⟩ ⟨.more, opened⟩ (Ends .letForm) (keyword.1 :: rest)
      (letForm expression (keyword.1 :: rest)) := by
  have first : Outlook.step ⟨.expression, opened⟩ keyword.1 = some ⟨.bound, opened⟩ := by
    simp [Outlook.step, keyword.2]
  have name : Tracks ⟨.bound, opened⟩ ⟨.equals, opened⟩ (fun _ => True) rest
      (expect .name rest) :=
    tracks_expect_only (fun _ => rfl) rfl (by simp [Outlook.finish])
  rw [letForm_let]
  refine (name.bind fun bound _ rest _ _ _ => ?_).cons first
  refine (tracks_expect_equals opened rest).bind fun _ _ rest _ _ _ => ?_
  refine (tracked (.value :: opened) rest).bind fun value _ rest _ _ ends => ?_
  refine (tracks_expect_closer .value ends).bind fun _ _ rest _ _ _ => ?_
  exact (tracked opened rest).bind fun body _ _ _ _ ends => tracks_grown ends

theorem tracks_ifForm_if (opened : List Bracket) (keyword : Terminal .ifWord)
    (rest : List Token) :
    Tracks ⟨.expression, opened⟩ ⟨.more, opened⟩ (Ends .ifForm) (keyword.1 :: rest)
      (ifForm expression (keyword.1 :: rest)) := by
  have first : Outlook.step ⟨.expression, opened⟩ keyword.1 =
      some ⟨.expression, .condition :: opened⟩ := by
    simp [Outlook.step, keyword.2]
  rw [ifForm_if]
  refine ((tracked (.condition :: opened) rest).bind
    fun condition _ rest _ _ ends => ?_).cons first
  refine (tracks_expect_closer .condition ends).bind fun _ _ rest _ _ _ => ?_
  refine (tracked (.thenBranch :: opened) rest).bind fun thenBranch _ rest _ _ ends => ?_
  refine (tracks_expect_closer .thenBranch ends).bind fun _ _ rest _ _ _ => ?_
  exact (tracked opened rest).bind fun elseBranch _ _ _ _ ends => tracks_grown ends

theorem tracked_letForm : Tracked .letForm (letForm expression) := by
  intro opened tokens
  cases letWord : startsWith .letWord tokens with
  | true =>
    obtain ⟨keyword, rest, rfl⟩ := exists_terminal_of_startsWith letWord
    exact tracks_letForm_let tracked opened keyword rest
  | false =>
    rw [letForm_other expression letWord]
    cases ifWord : startsWith .ifWord tokens with
    | true =>
      obtain ⟨keyword, rest, rfl⟩ := exists_terminal_of_startsWith ifWord
      exact tracks_ifForm_if tracked opened keyword rest
    | false =>
      rw [ifForm_other expression ifWord]
      refine (tracked_comparison tracked opened tokens).widen (by simp)
        (fun _ _ => Outlook.step_expression_of_operand) (fun refuses => ?_) (.inl rfl)
      cases tokens with
      | nil => simp [Outlook.Refuses, Outlook.finish, Rule.demand]
      | cons token rest =>
        simp only [startsWith, beq_eq_false_iff_ne] at letWord ifWord
        simpa [Outlook.Refuses, Outlook.step, Rule.demand, letWord, ifWord] using refuses

end Expressions

theorem tracked_expression (levels : Nat) : Tracked .expression (expression levels) := by
  induction levels with
  | zero => exact fun _ _ => .inl rfl
  | succ levels ih => exact tracked_letForm ih

/-- On any tokens, reading a program leads from the front of a program to its end. -/
theorem tracks_program (strict : Bool) (levels : Nat) (tokens : List Token) :
    Tracks .start .finish (fun rest => Ends .expression rest ∧ (strict = true → rest = [])) tokens
      (program strict levels tokens) := by
  unfold program
  refine (tracked_expression levels [] tokens).bind fun tree _ rest _ _ ends => ?_
  rw [get_bind]
  cases strict with
  | false => exact tracks_ok ⟨ends, by simp⟩
  | true =>
    cases rest with
    | nil => exact tracks_ok ⟨trivial, by simp⟩
    | cons token rest =>
      refine tracks_refused rfl ?_
      simp only [Ends, Rule.continues, Bool.or_eq_false_iff] at ends
      simp [Outlook.Refuses, Outlook.step, ends.1, ends.2, Outlook.close]

end Grammar

end Funlet
