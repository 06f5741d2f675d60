import Funlet.Proofs.Expr.Records
import Funlet.Proofs.Token.Spacing

/-!
# Reading without places

No rule of the grammar looks at the place of a token.  Taking the places off all tokens takes them
off what is read: the tree is the same, and so is an error but for the place of the token that it
names.  Texts that write the same tokens with other blanks between them are therefore the same
program.
-/

set_option autoImplicit false

namespace Funlet

def Fault.unplaced : Fault → Fault
  | .unexpected expected rest => .unexpected expected (rest.map Token.unplaced)
  | .unreadable text => .unreadable text

def Mismatch.unplaced (mismatch : Mismatch) : Mismatch :=
  { mismatch with token := mismatch.token.map Token.unplaced }

def GrammarError.unplaced : GrammarError → GrammarError
  | .mismatch details => .mismatch details.unplaced
  | .unreadable text => .unreadable text

namespace Grammar

def unplaced {α : Type} (value : α → α) :
    EStateM.Result Fault (List Token) α → EStateM.Result Fault (List Token) α
  | .ok result rest => .ok (value result) (rest.map Token.unplaced)
  | .error fault rest => .error fault.unplaced (rest.map Token.unplaced)

/-- Reading tokens without places gives what reading the tokens gives, without places. -/
def IgnoresPlaces {α : Type} (value : α → α) (reader : Reader α) : Prop :=
  ∀ tokens, reader (tokens.map Token.unplaced) = unplaced value (reader tokens)

section Steps

variable {α β : Type} {value : α → α} {result : β → β}

theorem unplaced_bind {reader reader' : Reader α} {next next' : α → Reader β}
    {tokens : List Token}
    (reads : reader' (tokens.map Token.unplaced) = unplaced value (reader tokens))
    (goesOn : ∀ read rest,
      next' (value read) (rest.map Token.unplaced) = unplaced result (next read rest)) :
    (reader' >>= next') (tokens.map Token.unplaced) =
      unplaced result ((reader >>= next) tokens) := by
  cases outcome : reader tokens with
  | ok read rest =>
    rw [outcome] at reads
    rw [bind_ok outcome, bind_ok reads, goesOn]
  | error fault rest =>
    rw [outcome] at reads
    rw [bind_error outcome, bind_error reads]
    rfl

end Steps

/-! ## Single tokens -/

theorem startsWith_unplaced (kind : Kind) (tokens : List Token) :
    startsWith kind (tokens.map Token.unplaced) = startsWith kind tokens := by
  cases tokens <;> rfl

theorem startsAtom_unplaced (tokens : List Token) :
    startsAtom (tokens.map Token.unplaced) = startsAtom tokens := by
  cases tokens <;> rfl

theorem startsOperator_unplaced (operators : List String) (tokens : List Token) :
    startsOperator operators (tokens.map Token.unplaced) = startsOperator operators tokens := by
  cases tokens <;> rfl

theorem expect_ignoresPlaces (kind : Kind) : IgnoresPlaces Token.unplaced (expect kind) := by
  intro tokens
  cases tokens with
  | nil => rfl
  | cons token rest =>
    by_cases fits : token.kind = kind
    · have unplacedFits : token.unplaced.kind = kind := fits
      simp only [List.map_cons, expect, if_pos fits, if_pos unplacedFits, unplaced]
    · have unplacedFails : ¬ token.unplaced.kind = kind := fits
      simp only [List.map_cons, expect, if_neg fits, if_neg unplacedFails, unplaced,
        Fault.unplaced]

theorem expectText_ignoresPlaces (kind : Kind) (text : String) :
    IgnoresPlaces Token.unplaced (expectText kind text) := by
  intro tokens
  cases tokens with
  | nil => rfl
  | cons token rest =>
    by_cases fits : token.kind = kind ∧ token.text = text
    · have unplacedFits : token.unplaced.kind = kind ∧ token.unplaced.text = text := fits
      simp only [List.map_cons, expectText, if_pos fits, if_pos unplacedFits, unplaced]
    · have unplacedFails : ¬ (token.unplaced.kind = kind ∧ token.unplaced.text = text) := fits
      simp only [List.map_cons, expectText, if_neg fits, if_neg unplacedFails, unplaced,
        Fault.unplaced]

theorem grown_unplaced (start : List Token) (node : Expr) (rest : List Token) :
    grown (start.map Token.unplaced) node (rest.map Token.unplaced) =
      unplaced id (grown start node rest) := by
  unfold grown
  split <;> rfl

theorem return_unplaced (tree : Expr) (rest : List Token) :
    (return tree : Reader Expr) (rest.map Token.unplaced) =
      unplaced id ((return tree : Reader Expr) rest) := rfl

/-! ## Rules -/

section Rules

variable {expression : Reader Expr} (inner : IgnoresPlaces id expression)

include inner

theorem lambdaForm_ignoresPlaces : IgnoresPlaces id (lambdaForm expression) := by
  intro tokens
  simp only [lambdaForm, get_bind]
  refine unplaced_bind (expect_ignoresPlaces .lambda _) fun _ _ => ?_
  refine unplaced_bind (expect_ignoresPlaces .name _) fun parameter _ => ?_
  refine unplaced_bind (expect_ignoresPlaces .arrow _) fun _ _ => ?_
  refine unplaced_bind (inner _) fun body rest => ?_
  exact grown_unplaced tokens (.lambda parameter.text body) rest

omit inner in
theorem numberAtom_unplaced (token : Token) (rest tokens : List Token) :
    numberAtom token.unplaced (rest.map Token.unplaced) (tokens.map Token.unplaced) =
      unplaced id (numberAtom token rest tokens) := by
  rw [numberAtom_eq, numberAtom_eq]
  have sameText : token.unplaced.text = token.text := rfl
  rw [sameText]
  split
  · rfl
  · split <;> rfl

theorem atom_ignoresPlaces : IgnoresPlaces id (atom expression) := by
  intro tokens
  cases tokens with
  | nil => rfl
  | cons token rest =>
    by_cases starts : startsAtom (token :: rest) = true
    · simp only [startsAtom] at starts
      rw [List.map_cons]
      split at starts
      · rename_i number
        have unplacedNumber : token.unplaced.kind = .number := number
        rw [atom_number ⟨token, number⟩, atom_number ⟨token.unplaced, unplacedNumber⟩]
        exact numberAtom_unplaced token rest (token :: rest)
      · rename_i name
        have unplacedName : token.unplaced.kind = .name := name
        rw [atom_name ⟨token, name⟩, atom_name ⟨token.unplaced, unplacedName⟩]
        rfl
      · rename_i paren
        have unplacedParen : token.unplaced.kind = .leftParen := paren
        rw [atom_paren ⟨token, paren⟩, atom_paren ⟨token.unplaced, unplacedParen⟩]
        refine unplaced_bind (inner _) fun tree _ => ?_
        refine unplaced_bind (expect_ignoresPlaces .rightParen _) fun _ rest => ?_
        exact return_unplaced tree rest
      · rename_i lambda
        have unplacedLambda : token.unplaced.kind = .lambda := lambda
        rw [atom_lambda ⟨token, lambda⟩, atom_lambda ⟨token.unplaced, unplacedLambda⟩]
        exact lambdaForm_ignoresPlaces inner (token :: rest)
      · simp at starts
    · have other : startsAtom (token :: rest) = false := by simpa using starts
      have unplacedOther := (startsAtom_unplaced (token :: rest)).trans other
      rw [atom_fails other, atom_fails unplacedOther]
      rfl

theorem arguments_ignoresPlaces (bound : Nat) (function : Expr) :
    IgnoresPlaces id (arguments expression bound function) := by
  induction bound generalizing function with
  | zero => exact return_unplaced function
  | succ bound ih =>
    intro tokens
    simp only [arguments, get_bind, startsAtom_unplaced]
    split
    · refine unplaced_bind (atom_ignoresPlaces inner _) fun argument rest => ?_
      refine unplaced_bind (grown_unplaced tokens (.apply function argument) rest) ?_
      exact ih
    · exact return_unplaced function tokens

theorem application_ignoresPlaces : IgnoresPlaces id (application expression) := by
  intro tokens
  refine unplaced_bind (atom_ignoresPlaces inner _) fun function rest => ?_
  simp only [get_bind, List.length_map]
  exact arguments_ignoresPlaces inner rest.length function rest

omit inner in
theorem operations_ignoresPlaces (operators : List String) {operand : Reader Expr}
    (reads : IgnoresPlaces id operand) (bound : Nat) (left : Expr) :
    IgnoresPlaces id (operations operators operand bound left) := by
  induction bound generalizing left with
  | zero => exact return_unplaced left
  | succ bound ih =>
    intro tokens
    cases starts : startsOperator operators tokens with
    | false =>
      have unplacedStarts := (startsOperator_unplaced operators tokens).trans starts
      rw [operations_stop _ left starts, operations_stop _ left unplacedStarts]
      rfl
    | true =>
      have unplacedStarts := (startsOperator_unplaced operators tokens).trans starts
      cases tokens with
      | nil => simp [startsOperator] at starts
      | cons token rest =>
        rw [List.map_cons] at unplacedStarts ⊢
        rw [operations_cons starts, operations_cons unplacedStarts]
        refine unplaced_bind (reads rest) fun right after => ?_
        refine unplaced_bind
          (grown_unplaced (token :: rest) (.binary token.text left right) after) ?_
        exact ih

omit inner in
theorem chain_ignoresPlaces (operators : List String) {operand : Reader Expr}
    (reads : IgnoresPlaces id operand) : IgnoresPlaces id (chain operators operand) := by
  intro tokens
  refine unplaced_bind (reads _) fun left rest => ?_
  simp only [get_bind, List.length_map]
  exact operations_ignoresPlaces operators reads rest.length left rest

theorem comparison_ignoresPlaces : IgnoresPlaces id (comparison expression) := by
  have multiplicative :=
    chain_ignoresPlaces Operator.multiplicative (application_ignoresPlaces inner)
  have additive := chain_ignoresPlaces Operator.additive multiplicative
  exact chain_ignoresPlaces Operator.comparison additive

theorem ifForm_ignoresPlaces : IgnoresPlaces id (ifForm expression) := by
  intro tokens
  simp only [ifForm, get_bind, startsWith_unplaced]
  split
  · refine unplaced_bind (expect_ignoresPlaces .ifWord _) fun _ _ => ?_
    refine unplaced_bind (inner _) fun condition _ => ?_
    refine unplaced_bind (expect_ignoresPlaces .thenWord _) fun _ _ => ?_
    refine unplaced_bind (inner _) fun thenBranch _ => ?_
    refine unplaced_bind (expect_ignoresPlaces .elseWord _) fun _ _ => ?_
    refine unplaced_bind (inner _) fun elseBranch rest => ?_
    exact grown_unplaced tokens (.ifThen condition thenBranch elseBranch) rest
  · exact comparison_ignoresPlaces inner tokens

theorem letForm_ignoresPlaces : IgnoresPlaces id (letForm expression) := by
  intro tokens
  simp only [letForm, get_bind, startsWith_unplaced]
  split
  · refine unplaced_bind (expect_ignoresPlaces .letWord _) fun _ _ => ?_
    refine unplaced_bind (expect_ignoresPlaces .name _) fun bound _ => ?_
    refine unplaced_bind (expectText_ignoresPlaces .operator "=" _) fun _ _ => ?_
    refine unplaced_bind (inner _) fun value _ => ?_
    refine unplaced_bind (expect_ignoresPlaces .inWord _) fun _ _ => ?_
    refine unplaced_bind (inner _) fun body rest => ?_
    exact grown_unplaced tokens (.letIn bound.text value body) rest
  · exact ifForm_ignoresPlaces inner tokens

end Rules

theorem expression_ignoresPlaces (levels : Nat) : IgnoresPlaces id (expression levels) := by
  induction levels with
  | zero => exact fun _ => rfl
  | succ levels ih => exact letForm_ignoresPlaces ih

theorem program_ignoresPlaces (strict : Bool) (levels : Nat) :
    IgnoresPlaces id (program strict levels) := by
  intro tokens
  refine unplaced_bind (expression_ignoresPlaces levels _) fun tree rest => ?_
  simp only [get_bind, List.isEmpty_map]
  split <;> rfl

end Grammar

/-! ## Programs -/

theorem Fault.locate_unplaced (total : Nat) (fault : Fault) :
    fault.unplaced.locate total = (fault.locate total).unplaced := by
  cases fault with
  | unexpected expected rest =>
    simp [unplaced, locate, GrammarError.unplaced, Mismatch.unplaced]
  | unreadable text => rfl

theorem Mismatch.found_unplaced (mismatch : Mismatch) :
    mismatch.unplaced.found = mismatch.found := by
  obtain ⟨expected, position, token⟩ := mismatch
  cases token <;> rfl

namespace Program

theorem ofTokens_unplaced (strict : Bool) (tokens : List Token) :
    ofTokens strict (tokens.map Token.unplaced) =
      (ofTokens strict tokens).mapError GrammarError.unplaced := by
  have reads := Grammar.program_ignoresPlaces strict Grammar.maxNesting tokens
  rcases ofTokens_cases strict tokens with
    ⟨tree, rest, read, outcome⟩ | ⟨fault, rest, read, outcome⟩
  · rw [read] at reads
    rw [ofTokens_of_ok reads, outcome]
    rfl
  · rw [read] at reads
    rw [ofTokens_of_error reads, outcome, List.length_map, Fault.locate_unplaced]
    rfl

/-- A text and one that writes its tokens apart are the same program: they give equal trees, or
errors that differ in the place of a token only. -/
theorem ofText_of_spacing {text other : String} {tokens : List Token} {pieces : List Piece}
    {last : List Char} (lexed : tokenize text = .ok tokens)
    (spacing : Spacing tokens other.toList pieces last) (strict : Bool) :
    (∃ tree, ofText strict text = .ok tree ∧ ofText strict other = .ok tree ∧
      tree.same tree = true) ∨
    ∃ mismatch mismatch' : Mismatch,
      ofText strict text = .error (.grammar (.mismatch mismatch)) ∧
      ofText strict other = .error (.grammar (.mismatch mismatch')) ∧
      mismatch'.expected = mismatch.expected ∧ mismatch'.found = mismatch.found ∧
      mismatch'.position = mismatch.position := by
  obtain ⟨again, lexedAgain, same⟩ := exists_tokenize_of_spacing lexed spacing
  have agree : (ofTokens strict again).mapError GrammarError.unplaced =
      (ofTokens strict tokens).mapError GrammarError.unplaced := by
    rw [← ofTokens_unplaced, same, ofTokens_unplaced]
  rcases ofTokens_of_words strict (isWord_of_tokenize lexed) with ⟨tree, read⟩ | ⟨mismatch, failed⟩
  · left
    have parsed := ofText_of_ok lexed read
    obtain ⟨writable, _, _⟩ := writable_of_ofText parsed
    have sameTree : tree.same tree = true := Expr.same_self writable.complete writable.finite
    refine ⟨tree, parsed, ofText_of_ok lexedAgain ?_, sameTree⟩
    cases outcome : ofTokens strict again with
    | ok other =>
      rw [outcome, read] at agree
      exact agree
    | error error =>
      rw [outcome, read] at agree
      cases agree
  · right
    rcases ofTokens_of_words strict (isWord_of_tokenize lexedAgain) with
      ⟨tree, read⟩ | ⟨mismatch', failed'⟩
    · rw [read, failed] at agree
      cases agree
    · rw [failed', failed] at agree
      have equal : mismatch'.unplaced = mismatch.unplaced :=
        GrammarError.mismatch.inj (Except.error.inj agree)
      have expected : mismatch'.unplaced.expected = mismatch.unplaced.expected := by rw [equal]
      have position : mismatch'.unplaced.position = mismatch.unplaced.position := by rw [equal]
      have found : mismatch'.found = mismatch.found := by
        rw [← mismatch'.found_unplaced, equal, mismatch.found_unplaced]
      exact ⟨mismatch, mismatch', ofText_of_error lexed failed,
        ofText_of_error lexedAgain failed', expected, found, position⟩

theorem ofText_of_spacing_touching :
    ∃ tree, ofText true "2x" = .ok tree ∧ ofText true " 2\n x" = .ok tree := by
  have lexed : tokenize "2x" = .ok [⟨.number, "2", ⟨1, 1⟩⟩, ⟨.name, "x", ⟨1, 2⟩⟩] := by
    decide +kernel
  have spacing : Spacing [⟨.number, "2", ⟨1, 1⟩⟩, ⟨.name, "x", ⟨1, 2⟩⟩] " 2\n x".toList
      [⟨[' '], ⟨.number, "2", ⟨1, 1⟩⟩⟩, ⟨['\n', ' '], ⟨.name, "x", ⟨1, 2⟩⟩⟩] [] := by
    have space : Text.isBlank ' ' = true := by decide
    have feed : Text.isBlank '\n' = true := by decide
    exact ⟨by decide +kernel, rfl, by simp [space, feed], by simp, by simp⟩
  have accepted : (ofText true "2x").toOption.isSome = true := by decide +kernel
  rcases ofText_of_spacing lexed spacing true with ⟨tree, first, second, _⟩ | ⟨_, _, failed, _⟩
  · exact ⟨tree, first, second⟩
  · simp [failed, Except.toOption] at accepted

end Program

end Funlet
