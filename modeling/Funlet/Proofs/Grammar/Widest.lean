import Funlet.Proofs.Grammar.Greedy

/-!
# The widest phrase

Among the phrases of the same tokens there is one in which the body of every function ends at least
as far to the right as in all others: the greedy phrases are exactly these.  The places where bodies
begin follow from the tokens alone, so bodies can be compared one by one.
-/

set_option autoImplicit false

namespace Funlet.Grammar

def bodyStarts : List Token → List (List Token)
  | [] => []
  | token :: rest =>
    if token.kind = .lambda then rest.drop 2 :: bodyStarts rest else bodyStarts rest

theorem bodyStarts_terminal {kind : Kind} {rest : List Token} (token : Terminal kind)
    (other : kind ≠ .lambda := by decide) : bodyStarts (token.1 :: rest) = bodyStarts rest := by
  simp [bodyStarts, token.2, other]

theorem bodyStarts_sign {texts : List String} (token : Sign texts) (rest : List Token) :
    bodyStarts (token.1 :: rest) = bodyStarts rest :=
  bodyStarts_terminal ⟨token.1, token.2.1⟩

theorem bodyStarts_lambda (keyword : Terminal .lambda) (parameter : Terminal .name)
    (arrow : Terminal .arrow) (rest : List Token) :
    bodyStarts (keyword.1 :: parameter.1 :: arrow.1 :: rest) = rest :: bodyStarts rest := by
  rw [bodyStarts, if_pos keyword.2, bodyStarts_terminal parameter, bodyStarts_terminal arrow]
  rfl

/-- A body of some length ends before tokens that do not go on with it. -/
def EndsAfter (tokens : List Token) (length : Nat) : Prop :=
  Ends .expression (tokens.drop length)

def IsBody (tokens : List Token) (length : Nat) : Prop :=
  ∃ (body : Phrase .expression) (rest : List Token),
    tokens = body.tokens ++ rest ∧ length = body.tokens.length

theorem forall₂_endsAfter_iff {rule : Rule} (phrase : Phrase rule) (rest : List Token)
    (lengths : List Nat) :
    List.Forall₂ EndsAfter (bodyStarts (phrase.tokens ++ rest)) (phrase.bodies ++ lengths) ↔
      phrase.GreedyBefore rest ∧ List.Forall₂ EndsAfter (bodyStarts rest) lengths := by
  induction phrase generalizing rest lengths with
  | inner passes phrase ih => exact ih rest lengths
  | letIn keyword bound equals value inWord body valueIh bodyIh =>
    simp only [Phrase.tokens, Phrase.bodies, Phrase.GreedyBefore, List.cons_append,
      List.append_assoc]
    rw [bodyStarts_terminal keyword, bodyStarts_terminal bound, bodyStarts_sign, valueIh,
      bodyStarts_terminal inWord, bodyIh, and_assoc]
  | ifThen keyword condition thenWord thenBranch elseWord elseBranch conditionIh thenIh elseIh =>
    simp only [Phrase.tokens, Phrase.bodies, Phrase.GreedyBefore, List.cons_append,
      List.append_assoc]
    rw [bodyStarts_terminal keyword, conditionIh, bodyStarts_terminal thenWord, thenIh,
      bodyStarts_terminal elseWord, elseIh, and_assoc, and_assoc]
  | join passes left operator right leftIh rightIh =>
    simp only [Phrase.tokens, Phrase.bodies, Phrase.GreedyBefore, List.cons_append,
      List.append_assoc]
    rw [leftIh, bodyStarts_sign, rightIh, and_assoc]
  | apply function argument functionIh argumentIh =>
    simp only [Phrase.tokens, Phrase.bodies, Phrase.GreedyBefore, List.append_assoc]
    rw [functionIh, argumentIh, and_assoc]
  | number token =>
    simp [bodyStarts_terminal token]
  | name token =>
    simp [bodyStarts_terminal token]
  | paren opening inside closing insideIh =>
    simp only [Phrase.tokens, Phrase.bodies, Phrase.GreedyBefore, List.cons_append,
      List.append_assoc, List.nil_append]
    rw [bodyStarts_terminal opening, insideIh, bodyStarts_terminal closing]
  | lambda keyword parameter arrow body bodyIh =>
    simp only [Phrase.tokens, Phrase.bodies, Phrase.GreedyBefore, List.cons_append]
    rw [bodyStarts_lambda, List.forall₂_cons, bodyIh, and_assoc]
    simp [EndsAfter]

theorem forall₂_isBody {rule : Rule} (phrase : Phrase rule) {rest : List Token}
    {lengths : List Nat} (after : List.Forall₂ IsBody (bodyStarts rest) lengths) :
    List.Forall₂ IsBody (bodyStarts (phrase.tokens ++ rest)) (phrase.bodies ++ lengths) := by
  induction phrase generalizing rest lengths with
  | inner passes phrase ih => exact ih after
  | letIn keyword bound equals value inWord body valueIh bodyIh =>
    simp only [Phrase.tokens, Phrase.bodies, List.cons_append, List.append_assoc]
    rw [bodyStarts_terminal keyword, bodyStarts_terminal bound, bodyStarts_sign]
    apply valueIh
    rw [bodyStarts_terminal inWord]
    exact bodyIh after
  | ifThen keyword condition thenWord thenBranch elseWord elseBranch conditionIh thenIh elseIh =>
    simp only [Phrase.tokens, Phrase.bodies, List.cons_append, List.append_assoc]
    rw [bodyStarts_terminal keyword]
    apply conditionIh
    rw [bodyStarts_terminal thenWord]
    apply thenIh
    rw [bodyStarts_terminal elseWord]
    exact elseIh after
  | join passes left operator right leftIh rightIh =>
    simp only [Phrase.tokens, Phrase.bodies, List.cons_append, List.append_assoc]
    apply leftIh
    rw [bodyStarts_sign]
    exact rightIh after
  | apply function argument functionIh argumentIh =>
    simp only [Phrase.tokens, Phrase.bodies, List.append_assoc]
    exact functionIh (argumentIh after)
  | number token => simpa [bodyStarts_terminal token] using after
  | name token => simpa [bodyStarts_terminal token] using after
  | paren opening inside closing insideIh =>
    simp only [Phrase.tokens, Phrase.bodies, List.cons_append, List.append_assoc, List.nil_append]
    rw [bodyStarts_terminal opening]
    apply insideIh
    rw [bodyStarts_terminal closing]
    exact after
  | lambda keyword parameter arrow body bodyIh =>
    simp only [Phrase.tokens, Phrase.bodies, List.cons_append]
    rw [bodyStarts_lambda]
    exact .cons ⟨body, rest, rfl, rfl⟩ (bodyIh after)

theorem length_le_of_endsAfter {tokens : List Token} {length widest : Nat}
    (body : IsBody tokens length) (wide : IsBody tokens widest)
    (ends : EndsAfter tokens widest) : length ≤ widest := by
  obtain ⟨body, rest, split, rfl⟩ := body
  obtain ⟨wide, wideRest, rfl, rfl⟩ := wide
  simp only [EndsAfter, List.drop_left] at ends
  rcases List.append_eq_append_iff.mp split with ⟨more, longer, after⟩ | ⟨more, shorter, after⟩
  · have accepts : Outlook.finish.Accepts more := by
      have ran := Outlook.run_phrase body []
      rw [longer, Outlook.run_append_of_run (Outlook.run_phrase wide [])] at ran
      exact ran
    have stops : Ends .expression more := by
      cases more with
      | nil => trivial
      | cons token more =>
        rw [after] at ends
        exact ends
    obtain rfl := Outlook.accepts_end stops accepts
    simp [longer]
  · simp [shorter]

/-- In a greedy phrase every body ends the furthest to the right. -/
theorem widest_of_greedy {rule : Rule} {phrase : Phrase rule} (greedy : phrase.GreedyBefore []) :
    phrase.Widest := by
  intro other sameTokens
  have otherBodies : List.Forall₂ IsBody (bodyStarts (other.tokens ++ [])) (other.bodies ++ []) :=
    forall₂_isBody other .nil
  have bodies : List.Forall₂ IsBody (bodyStarts (phrase.tokens ++ [])) (phrase.bodies ++ []) :=
    forall₂_isBody phrase .nil
  have ends := (forall₂_endsAfter_iff phrase [] []).mpr ⟨greedy, .nil⟩
  rw [sameTokens] at otherBodies
  simp only [List.append_nil] at otherBodies bodies ends
  revert otherBodies bodies ends
  generalize bodyStarts phrase.tokens = starts
  generalize other.bodies = lengths
  generalize phrase.bodies = widest
  intro otherBodies bodies ends
  induction otherBodies generalizing widest with
  | nil =>
    cases bodies
    exact .nil
  | cons body _ ih =>
    cases bodies with
    | cons wide bodies =>
      cases ends with
      | cons stops ends =>
        exact .cons (length_le_of_endsAfter body wide stops) (ih _ bodies ends)

/-- A phrase in which every body ends the furthest to the right is greedy. -/
theorem greedy_of_widest {phrase : Phrase .expression} (widest : phrase.Widest) :
    phrase.GreedyBefore [] := by
  obtain ⟨greedy, sameTokens, stays⟩ :=
    exists_greedy_of_accepts (derives_iff_accepts.mp ⟨phrase, rfl⟩)
  have below : List.Forall₂ (· ≤ ·) greedy.bodies phrase.bodies := widest greedy sameTokens
  have above : List.Forall₂ (· ≤ ·) phrase.bodies greedy.bodies :=
    widest_of_greedy stays phrase sameTokens.symm
  have sameBodies : phrase.bodies = greedy.bodies := by
    revert below above
    generalize greedy.bodies = lengths
    generalize phrase.bodies = widest
    intro below above
    induction below with
    | nil => rfl
    | cons head _ ih =>
      cases above with
      | cons head' tail => rw [ih tail, Nat.le_antisymm head head']
  have ends := (forall₂_endsAfter_iff greedy [] []).mpr ⟨stays, .nil⟩
  rw [sameTokens, ← sameBodies] at ends
  exact ((forall₂_endsAfter_iff phrase [] []).mp ends).1

end Funlet.Grammar
