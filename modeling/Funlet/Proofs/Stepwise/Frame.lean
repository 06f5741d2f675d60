import Funlet.Proofs.Stepwise.Rules

/-!
# What reading by a rule leaves behind

A parser that stands anywhere in any tokens, with any number of expressions open, can be asked to
read by any rule.  Every request that the rule makes is answered and no bound is used up, so reading
ends.  It ends with at least one token passed, or with an error of the grammar; either way the
parser is not past the last token, and every expression opened on the way is closed again.
-/

set_option autoImplicit false

namespace Funlet

open Grammar (Rule maxNesting)

/-- A parser that has gone on in its tokens, not past the last one, and has as many expressions open
as before. -/
structure Parser.GoesOn (before after : Parser) : Prop where
  tokens : after.tokens = before.tokens
  strict : after.strict = before.strict
  depth : after.depth = before.depth
  forward : before.position ≤ after.position
  within : after.position ≤ before.tokens.length

namespace Stepwise

def build (bound : Nat) : Rule → Builder Expr
  | .expression => expression bound
  | .letForm => letForm (expression bound)
  | .ifForm => ifForm (expression bound)
  | .comparison => comparison (expression bound)
  | .additive => additive (expression bound)
  | .multiplicative => multiplicative (expression bound)
  | .application => application (expression bound)
  | .atom => atom (expression bound)
  | .lambdaForm => lambdaForm (expression bound)

theorem simulates_rule {levels bound : Nat} (enough : levels < bound) (rule : Rule) :
    Simulates levels (build bound rule) (rule.read levels) := by
  have inside := simulates_expression enough
  cases rule with
  | expression => exact inside
  | letForm => exact simulates_letForm inside
  | ifForm => exact simulates_ifForm inside
  | comparison => exact simulates_comparison inside
  | additive => exact simulates_chain rfl (simulates_chain rfl (simulates_application inside))
  | multiplicative => exact simulates_chain rfl (simulates_application inside)
  | application => exact simulates_application inside
  | atom => exact simulates_atom inside
  | lambdaForm => exact simulates_lambdaForm inside

section Desks

variable {before last : Desk}

theorem Desk.Follows.goesOn (follows : last.Follows before)
    (within : before.parser.position ≤ before.parser.tokens.length) :
    before.parser.GoesOn last.parser where
  tokens := follows.tokens
  strict := follows.strict
  depth := follows.depth
  forward := by
    have left := follows.left
    rw [Parser.length_rest, Parser.length_rest, follows.tokens] at left
    omega
  within := follows.tokens ▸ follows.within within

theorem Desk.Follows.leaving_eq (follows : last.Follows before)
    (within : before.parser.position ≤ before.parser.tokens.length) :
    before.parser.leaving last.parser.rest.length = last.parser := by
  obtain ⟨tokens, strict, depth, forward, inside⟩ := follows.goesOn within
  have position : before.parser.position +
      (before.parser.rest.length - last.parser.rest.length) = last.parser.position := by
    rw [Parser.length_rest, Parser.length_rest, tokens]
    omega
  rw [Parser.leaving, position, ← tokens, ← strict, ← depth]

end Desks

end Stepwise

namespace Parser

/-- Reading by any rule, from any place within the tokens and with any number of expressions open,
ends, as it does by single requests to the parser, which count the expressions that are open: with a
tree, at least one token having been passed, or with an error of the grammar, where a number token
that spells no number is such an error.  In both cases the parser left is no further than the end of
the tokens, and as many expressions are open as before. -/
theorem perform_rule_goes_on (parser : Parser) (rule : Rule)
    (within : parser.position ≤ parser.tokens.length) :
    (∃ tree last, parser.perform (.rule rule) = (.ok (.tree tree), last.parser) ∧
      Stepwise.build (maxNesting + 1) rule ⟨parser, []⟩ = .ok tree last ∧
      parser.GoesOn last.parser ∧ parser.position < last.parser.position) ∨
    ∃ error last, parser.perform (.rule rule) = (.error (.grammar error), last.parser) ∧
      Stepwise.build (maxNesting + 1) rule ⟨parser, []⟩ = .error error.failure last ∧
      parser.GoesOn last.parser := by
  have enough : parser.levels < maxNesting + 1 := Nat.lt_succ_of_le (Nat.sub_le _ _)
  have agrees := Stepwise.simulates_rule enough rule ⟨parser, []⟩ (Stepwise.ready_start parser)
  generalize built : Stepwise.build (maxNesting + 1) rule ⟨parser, []⟩ = builds at agrees
  cases read : rule.read parser.levels parser.rest with
  | ok tree rest =>
    rw [read] at agrees
    cases agrees with
    | @ok _ result _ last follows left done =>
      obtain ⟨rfl, _, fewer⟩ := done
      have performed : parser.perform (.rule rule) = (.ok (.tree result), last.parser) := by
        rw [perform, run, read, ← left]
        simp only
        rw [follows.leaving_eq within]
      have further : parser.position < last.parser.position := by
        rw [length_rest, length_rest, follows.tokens] at fewer
        dsimp only at fewer
        omega
      exact .inl ⟨result, last, performed, rfl, follows.goesOn within, further⟩
  | error fault rest =>
    rw [read] at agrees
    cases agrees with
    | @error _ failure _ last follows left _ same =>
      have performed : parser.perform (.rule rule) =
          (.error (.grammar (fault.locate parser.tokens.length)), last.parser) := by
        rw [perform, run, read, ← left]
        simp only
        rw [follows.leaving_eq within]
      exact .inr ⟨_, last, performed, by rw [same], follows.goesOn within⟩

def unclosed : Parser where
  tokens := [⟨.name, "f", ⟨1, 1⟩⟩, ⟨.leftParen, "(", ⟨1, 3⟩⟩, ⟨.name, "x", ⟨1, 4⟩⟩]
  strict := true
  position := 0
  depth := 3

theorem perform_rule_goes_on_unclosed :
    unclosed.position ≤ unclosed.tokens.length ∧
    ∃ last, unclosed.perform (.rule .application) =
        (.error (.grammar (.mismatch ⟨.kind .rightParen, 3, none⟩)), last.parser) ∧
      Stepwise.build (maxNesting + 1) .application ⟨unclosed, []⟩ =
        .error (.reported ⟨.kind .rightParen, 3, none⟩) last ∧
      unclosed.GoesOn last.parser := by
  have within : unclosed.position ≤ unclosed.tokens.length := by decide
  refine ⟨within, ?_⟩
  have outcome : (unclosed.perform (.rule .application)).1 =
      .error (.grammar (.mismatch ⟨.kind .rightParen, 3, none⟩)) := by rfl
  rcases perform_rule_goes_on unclosed .application within with
    ⟨tree, last, performed, _⟩ | ⟨error, last, performed, built, goesOn⟩
  · rw [performed] at outcome
    cases outcome
  · rw [performed] at outcome
    cases outcome
    exact ⟨last, performed, built, goesOn⟩

end Parser

end Funlet
