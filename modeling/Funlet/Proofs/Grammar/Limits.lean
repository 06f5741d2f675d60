import Funlet.Proofs.Grammar.Reading

/-!
# The limits of a phrase

A phrase oversteps a limit if more expressions are open in it than levels are allowed, if its tree
is too tall, or if a number in it is too large.  Nothing else can stand in the way of reading it.
-/

set_option autoImplicit false

namespace Funlet

/-- A token that does not spell an infinite number or no number at all, unless it is no number
token. -/
def Token.HasFiniteValue (token : Token) : Prop :=
  token.kind = .number →
    ∃ value, Numeral.readReal? token.text = some value ∧ value.isInfinite = false

theorem Token.hasFiniteValue_terminal {kind : Kind} (token : Grammar.Terminal kind)
    (other : kind ≠ .number := by decide) : token.1.HasFiniteValue :=
  fun number => absurd (token.2.symm.trans number) other

theorem Token.hasFiniteValue_sign {texts : List String} (token : Grammar.Sign texts) :
    token.1.HasFiniteValue :=
  Token.hasFiniteValue_terminal ⟨token.1, token.2.1⟩

namespace Grammar

theorem tooTall_eq_none_iff {tree : Expr} {start : List Token} :
    tooTall tree start = none ↔ tree.height ≤ Expr.maxHeight := by
  unfold tooTall
  split <;> simp_all

/-- A phrase keeps within the limits, the given number of levels being allowed. -/
def Phrase.Fits {rule : Rule} (phrase : Phrase rule) (levels : Nat) : Prop :=
  phrase.levels ≤ levels ∧ phrase.tree.height ≤ Expr.maxHeight ∧
    ∀ token ∈ phrase.tokens, token.HasFiniteValue

/-- A phrase oversteps no limit if and only if it keeps within them. -/
theorem Phrase.violation_eq_none_iff {rule : Rule} (phrase : Phrase rule) (levels : Nat)
    (rest : List Token) : phrase.violation levels rest = none ↔ phrase.Fits levels := by
  induction phrase generalizing levels rest with
  | @inner rule below passes phrase ih =>
    cases rule with
    | expression =>
      cases levels with
      | zero => simp [Fits]
      | succ levels =>
        simpa [Fits] using ih levels rest
    | _ => exact ih levels rest
  | letIn keyword bound equals value inWord body valueIh bodyIh =>
    have parts : 1 + max value.tree.height body.tree.height ≤ Expr.maxHeight →
        value.tree.height ≤ Expr.maxHeight ∧ body.tree.height ≤ Expr.maxHeight := by omega
    simp only [violation, Option.or_eq_none_iff, valueIh, bodyIh, tooTall_eq_none_iff, Fits,
      Phrase.levels, tree, tokens, Expr.height, Nat.max_le, List.forall_mem_cons,
      List.forall_mem_append, Token.hasFiniteValue_sign, Token.hasFiniteValue_terminal keyword,
      Token.hasFiniteValue_terminal bound, Token.hasFiniteValue_terminal inWord, true_and]
    grind
  | ifThen keyword condition thenWord thenBranch elseWord elseBranch conditionIh thenIh elseIh =>
    have parts : 1 + max condition.tree.height
          (max thenBranch.tree.height elseBranch.tree.height) ≤ Expr.maxHeight →
        condition.tree.height ≤ Expr.maxHeight ∧ thenBranch.tree.height ≤ Expr.maxHeight ∧
          elseBranch.tree.height ≤ Expr.maxHeight := by omega
    simp only [violation, Option.or_eq_none_iff, conditionIh, thenIh, elseIh, tooTall_eq_none_iff,
      Fits, Phrase.levels, tree, tokens, Expr.height, Nat.max_le, List.forall_mem_cons,
      List.forall_mem_append, Token.hasFiniteValue_terminal keyword,
      Token.hasFiniteValue_terminal thenWord, Token.hasFiniteValue_terminal elseWord, true_and]
    grind
  | join passes left operator right leftIh rightIh =>
    have parts : 1 + max left.tree.height right.tree.height ≤ Expr.maxHeight →
        left.tree.height ≤ Expr.maxHeight ∧ right.tree.height ≤ Expr.maxHeight := by omega
    simp only [violation, Option.or_eq_none_iff, leftIh, rightIh, tooTall_eq_none_iff, Fits,
      Phrase.levels, tree, tokens, Expr.height, Nat.max_le, List.forall_mem_cons,
      List.forall_mem_append, Token.hasFiniteValue_sign, true_and]
    grind
  | apply function argument functionIh argumentIh =>
    have parts : 1 + max function.tree.height argument.tree.height ≤ Expr.maxHeight →
        function.tree.height ≤ Expr.maxHeight ∧ argument.tree.height ≤ Expr.maxHeight := by omega
    simp only [violation, Option.or_eq_none_iff, functionIh, argumentIh, tooTall_eq_none_iff, Fits,
      Phrase.levels, tree, tokens, Expr.height, Nat.max_le, List.forall_mem_append]
    grind
  | number token =>
    have small : 1 ≤ Expr.maxHeight := by decide
    simp only [violation, Fits, Phrase.levels, tree, tokens, Expr.height, small,
      List.forall_mem_singleton, Token.HasFiniteValue, token.2, Nat.zero_le, true_and,
      forall_const]
    cases Numeral.readReal? token.1.text with
    | none => simp
    | some value => cases infinite : value.isInfinite <;> simp [infinite]
  | name token =>
    have small : 1 ≤ Expr.maxHeight := by decide
    simp [Fits, Expr.height, small, Token.hasFiniteValue_terminal token]
  | paren opening inside closing insideIh =>
    simp only [violation, insideIh, Fits, Phrase.levels, tree, tokens, List.forall_mem_cons,
      List.forall_mem_append, Token.hasFiniteValue_terminal opening,
      Token.hasFiniteValue_terminal closing, true_and]
    simp
  | lambda keyword parameter arrow body bodyIh =>
    have parts : 1 + body.tree.height ≤ Expr.maxHeight →
        body.tree.height ≤ Expr.maxHeight := by omega
    simp only [violation, Option.or_eq_none_iff, bodyIh, tooTall_eq_none_iff, Fits,
      Phrase.levels, tree, tokens, Expr.height, List.forall_mem_cons,
      Token.hasFiniteValue_terminal keyword, Token.hasFiniteValue_terminal parameter,
      Token.hasFiniteValue_terminal arrow, true_and]
    grind

/-! ## The limit overstepped -/

def Oversteps (tokens : List Token) : Fault → Prop
  | .unreadable text =>
    ∃ token ∈ tokens, token.kind = .number ∧ token.text = text ∧ Numeral.readReal? text = none
  | .unexpected expected _ =>
    expected = .shallowerNesting ∨ expected = .finiteNumber ∧
      ∃ token ∈ tokens, token.kind = .number ∧
        ∃ value, Numeral.readReal? token.text = some value ∧ value.isInfinite = true

theorem Oversteps.mono {tokens more : List Token} {fault : Fault} (within : tokens ⊆ more)
    (oversteps : Oversteps tokens fault) : Oversteps more fault := by
  cases fault with
  | unreadable text =>
    obtain ⟨token, member, details⟩ := oversteps
    exact ⟨token, within member, details⟩
  | unexpected expected rest =>
    rcases oversteps with nested | ⟨number, token, member, details⟩
    · exact .inl nested
    · exact .inr ⟨number, token, within member, details⟩

theorem oversteps_of_tooTall {tree : Expr} {start tokens : List Token} {fault : Fault}
    (tall : tooTall tree start = some fault) : Oversteps tokens fault := by
  unfold tooTall at tall
  split at tall
  · simp at tall
  · obtain rfl := Option.some.inj tall
    exact .inl rfl

/-- The limit that a phrase oversteps is overstepped by its tokens. -/
theorem Phrase.oversteps_of_violation {rule : Rule} (phrase : Phrase rule) {levels : Nat}
    {rest : List Token} {fault : Fault} (found : phrase.violation levels rest = some fault) :
    Oversteps phrase.tokens fault := by
  induction phrase generalizing levels rest with
  | @inner rule below passes phrase ih =>
    cases rule with
    | expression =>
      cases levels with
      | zero =>
        obtain rfl := Option.some.inj found
        exact .inl rfl
      | succ levels => exact ih found
    | _ => exact ih found
  | letIn keyword bound equals value inWord body valueIh bodyIh =>
    simp only [violation, Option.or_eq_some_iff] at found
    rcases found with inValue | ⟨_, inBody | ⟨_, tall⟩⟩
    · exact (valueIh inValue).mono fun token member => by simp [member]
    · exact (bodyIh inBody).mono fun token member => by simp [member]
    · exact oversteps_of_tooTall tall
  | ifThen keyword condition thenWord thenBranch elseWord elseBranch conditionIh thenIh elseIh =>
    simp only [violation, Option.or_eq_some_iff] at found
    rcases found with inCondition | ⟨_, inThen | ⟨_, inElse | ⟨_, tall⟩⟩⟩
    · exact (conditionIh inCondition).mono fun token member => by simp [member]
    · exact (thenIh inThen).mono fun token member => by simp [member]
    · exact (elseIh inElse).mono fun token member => by simp [member]
    · exact oversteps_of_tooTall tall
  | join passes left operator right leftIh rightIh =>
    simp only [violation, Option.or_eq_some_iff] at found
    rcases found with inLeft | ⟨_, inRight | ⟨_, tall⟩⟩
    · exact (leftIh inLeft).mono fun token member => by simp [member]
    · exact (rightIh inRight).mono fun token member => by simp [member]
    · exact oversteps_of_tooTall tall
  | apply function argument functionIh argumentIh =>
    simp only [violation, Option.or_eq_some_iff] at found
    rcases found with inFunction | ⟨_, inArgument | ⟨_, tall⟩⟩
    · exact (functionIh inFunction).mono fun token member => by simp [member]
    · exact (argumentIh inArgument).mono fun token member => by simp [member]
    · exact oversteps_of_tooTall tall
  | number token =>
    simp only [violation] at found
    split at found
    · rename_i unreadable
      obtain rfl := Option.some.inj found
      exact ⟨token.1, by simp, token.2, rfl, unreadable⟩
    · rename_i value read
      split at found
      · rename_i infinite
        obtain rfl := Option.some.inj found
        exact .inr ⟨rfl, token.1, by simp, token.2, value, read, infinite⟩
      · simp at found
  | name token => simp at found
  | paren opening inside closing insideIh =>
    exact (insideIh found).mono fun token member => by simp [member]
  | lambda keyword parameter arrow body bodyIh =>
    simp only [violation, Option.or_eq_some_iff] at found
    rcases found with inBody | ⟨_, tall⟩
    · exact (bodyIh inBody).mono fun token member => by simp [member]
    · exact oversteps_of_tooTall tall

theorem Oversteps.exists_shallowerNesting {tokens : List Token} {fault : Fault}
    (oversteps : Oversteps tokens fault) (finite : ∀ token ∈ tokens, token.HasFiniteValue) :
    ∃ rest, fault = .unexpected .shallowerNesting rest := by
  cases fault with
  | unreadable text =>
    obtain ⟨token, member, number, rfl, unreadable⟩ := oversteps
    obtain ⟨value, read, _⟩ := finite token member number
    simp [unreadable] at read
  | unexpected expected rest =>
    rcases oversteps with rfl | ⟨_, token, member, number, value, read, infinite⟩
    · exact ⟨rest, rfl⟩
    · obtain ⟨_, read', finite⟩ := finite token member number
      obtain rfl := Option.some.inj (read.symm.trans read')
      simp [infinite] at finite

end Grammar

end Funlet
